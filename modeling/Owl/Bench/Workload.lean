/-
Programs to measure the compiler with.

A workload is a fixed program, to which as many parts are added as asked.  One has
no errors and the other is full of them.  Both measure the type checker; what is
measured of the lexer, the parser, emission and the commands is not here.
-/
import Owl.Compile

namespace Owl.Bench.Workload

/-- Lines as a text; each ends with a line feed. -/
def joined (lines : List String) : String := String.join (lines.map (· ++ "\n"))

/-! ### A program without errors -/

def soundBase : List String :=
  ["// header comment",
    "/** multi",
    "line",
    "comment */",
    "from python import math",
    "from python import json as j",
    "from python.os.path import join, exists as ex, dirname",
    "",
    "fn noargs() \x7b",
    "\x7d",
    "",
    "fn empty_body() -> Void \x7b",
    "    return",
    "\x7d",
    "",
    "fn use_try(a: Int) -> Result[Int, String] \x7b",
    "    let r: Result[Int, String] = Ok(a)",
    "    let v = r?",
    "    r?",
    "    let rr: Result[Result[Int, String], String] = Ok(Ok(v))",
    "    return rr?",
    "\x7d",
    "",
    "fn chain(a: Int) -> Result[Int, String] \x7b",
    "    let v = use_try(a)?",
    "    Ok(v * 2)",
    "\x7d",
    "",
    "fn maybe(flag: Bool) -> Option[Int] \x7b",
    "    if flag \x7b",
    "        Some(1)",
    "    \x7d else \x7b",
    "        None",
    "    \x7d",
    "\x7d",
    "",
    "fn classify(n: Int) -> String \x7b",
    "    if n < 0 \x7b",
    "        \"neg\"",
    "    \x7d else \x7b",
    "        if n == 0 \x7b",
    "            \"zero\"",
    "        \x7d else \x7b",
    "            \"pos\"",
    "        \x7d",
    "    \x7d",
    "\x7d",
    "",
    "fn last_let(n: Int) -> Void \x7b",
    "    let _x = n",
    "\x7d",
    "",
    "fn loops(n: Int) -> Int \x7b",
    "    let mut total: Int = 0",
    "    let mut i = 0",
    "    while i < n \x7b",
    "        if i % 2 == 0 \x7b",
    "            i = i + 1",
    "            continue",
    "        \x7d",
    "        total = total + i",
    "        i = i + 1",
    "    \x7d",
    "    for x in [1, 2, 3,] \x7b",
    "        total = total + x",
    "    \x7d",
    "    for y in range(0, 3) \x7b",
    "        total = total + y",
    "    \x7d",
    "    loop \x7b",
    "        total = total + 1",
    "        if total > 100 \x7b",
    "            break",
    "        \x7d",
    "    \x7d",
    "    let e: List[Int] = []",
    "    let e2 = push(e, 1)",
    "    let g = get(e2, 0)",
    "    let _l = len(e2)",
    "    let _b = is_empty(e2)",
    "    return total + g",
    "\x7d",
    "",
    "fn handle_option(o: Option[Int]) -> Int \x7b",
    "    match o \x7b",
    "        Some(v) => v + 1,",
    "        None => 0,",
    "    \x7d",
    "\x7d",
    "",
    "fn handle_result(r: Result[Int, String]) -> Int \x7b",
    "    match r \x7b",
    "        Ok(v) => v,",
    "        Err(e) => len([e]),",
    "    \x7d",
    "\x7d",
    "",
    "fn arithmetic(a: Int, b: Float) -> Float \x7b",
    "    let s = \"hello\" + \"world\" + \"\\t\\\"\\\\end\"",
    "    let _sl = len([s])",
    "    let x = -a",
    "    let y = (a + 1) * 2 - 3 / 1 % 2",
    "    let z = b + 1.5",
    "    let _c1 = a == 1",
    "    let _c2 = a != 2",
    "    let _c3 = a <= 3",
    "    let _c4 = a >= 0",
    "    let _c5 = b > 0.0",
    "    let _c6 = true",
    "    let _c7 = false",
    "    let _p = math.pi",
    "    let _jv = j.dumps(1)",
    "    let _jp = join(\"a\", \"b\")",
    "    z + b * 0.0 + 0.0 * (y - x)",
    "\x7d",
    "",
    "fn main() \x7b",
    "    print(\"hello\")",
    "    print(classify(5))",
    "    print(handle_option(Some(3)))",
    "    print(handle_result(Ok(7)))",
    "    print(arithmetic(1, 2.0))",
    "    print(loops(5))",
    "\x7d"]

def soundPart (i : Nat) : String :=
  let i := toString i
  joined
    ["fn gen_" ++ i ++ "(a: Int, b: Int) -> Int \x7b",
      "    let mut x = a + b * " ++ i,
      "    let unused" ++ i ++ " = " ++ i,
      "    let lst = [1, 2, 3, 4]",
      "    for v in lst \x7b",
      "        x = x + v",
      "    \x7d",
      "    if x > 10 \x7b x \x7d else \x7b 0 - x \x7d",
      "\x7d"]

/-- The sound program with `n` functions more.  A call of the first one ends it unless `n` is
zero. -/
def sound (n : Int) : String :=
  joined soundBase ++ "\n".intercalate ((List.range n.toNat).map soundPart) ++ "\n" ++
    (if n == 0 then "" else joined ["let _gg = gen_0(1, 2)", "print(_gg)"])

/-! ### A program with errors -/

def faultyBase : List String :=
  ["fn bad_empty() -> Int \x7b",
    "\x7d",
    "",
    "fn bad_any(a: Any) -> Int \x7b",
    "    a",
    "\x7d",
    "",
    "fn bad_arity(a: Option) -> Int \x7b",
    "    1",
    "\x7d",
    "",
    "fn bad_arity2(a: Int[Int]) -> Int \x7b",
    "    1",
    "\x7d",
    "",
    "fn bad_unknown(a: Widget) -> Int \x7b",
    "    1",
    "\x7d",
    "",
    "fn bad_try(a: Int) -> Int \x7b",
    "    let r = Ok(1)",
    "    let x = a?",
    "    let y = r?",
    "    return y + x",
    "\x7d",
    "",
    "fn bad_try2() -> Result[Int, Int] \x7b",
    "    let r: Result[Int, String] = Err(\"e\")",
    "    let v = r?",
    "    Ok(v)",
    "\x7d",
    "",
    "fn bad_match1(o: Option[Int]) -> Int \x7b",
    "    match o \x7b Some(v) => v \x7d",
    "\x7d",
    "",
    "fn bad_match2(o: Option[Int]) -> Int \x7b",
    "    match o \x7b Ok(v) => v, Err(e) => 0 \x7d",
    "\x7d",
    "",
    "fn bad_match3(o: Option[Int]) -> Int \x7b",
    "    match o \x7b Some(v) => v, None => \"x\" \x7d",
    "\x7d",
    "",
    "fn bad_match4(a: Int) -> Int \x7b",
    "    match a \x7b Some(v) => v, None => 0 \x7d",
    "\x7d",
    "",
    "fn bad_list() -> Int \x7b",
    "    let l = [1, \"two\", 3]",
    "    len(l)",
    "\x7d",
    "",
    "fn bad_get() -> Int \x7b",
    "    let x = get([1], \"idx\")",
    "    let y = get(1, 0)",
    "    let z = get([1])",
    "    let p = push([1], \"x\")",
    "    let q = push(1, 2)",
    "    let r = push([1])",
    "    x",
    "\x7d",
    "",
    "fn bad_ops(a: String, unused: Int) -> Bool \x7b",
    "    let _u = Some(1, 2)",
    "    let _o = Ok()",
    "    let _e = Err()",
    "    let _ng = -a",
    "    let _cmp = a < 3",
    "    let _eq = 1 == \"x\"",
    "    let _sum = a + 1",
    "    return true",
    "    print(\"dead\")",
    "\x7d",
    "",
    "fn bad_ret(a: Int) -> String \x7b",
    "    return a",
    "\x7d",
    "",
    "fn bad_ret2() -> Int \x7b",
    "    let x = 1",
    "\x7d",
    "",
    "fn bad_ret3() -> Int \x7b",
    "    if true \x7b 1 \x7d",
    "\x7d",
    "",
    "fn bad_ret4() -> Int \x7b",
    "    if true \x7b 1 \x7d else \x7b \"x\" \x7d",
    "\x7d",
    "",
    "fn bad_if() -> Int \x7b",
    "    if 5 \x7b 1 \x7d else \x7b 2 \x7d",
    "\x7d",
    "",
    "fn bad_while() \x7b",
    "    while 1 \x7b print(1) \x7d",
    "\x7d",
    "",
    "fn bad_for() \x7b",
    "    for x in 5 \x7b print(x) \x7d",
    "\x7d",
    "",
    "fn bad_loop_noexit() \x7b",
    "    loop \x7b print(1) \x7d",
    "\x7d",
    "",
    "fn bad_immut() \x7b",
    "    let x = 1",
    "    x = 2",
    "\x7d",
    "",
    "fn bad_undef() \x7b",
    "    y = 1",
    "    let z = qqq",
    "    unknownfn()",
    "\x7d",
    "",
    "fn ignored() \x7b",
    "    Some(1)",
    "    Ok(1)",
    "    print(1)",
    "\x7d",
    "",
    "fn argcount() \x7b",
    "    len([1], [2])",
    "\x7d",
    "",
    "fn const_cond() \x7b",
    "    if true \x7b print(1) \x7d",
    "    while false \x7b print(1) \x7d",
    "\x7d",
    "",
    "fn outer_mut() \x7b",
    "    let mut x = 1",
    "    if true \x7b",
    "        x = 2",
    "    \x7d",
    "    x = \"bad\"",
    "\x7d",
    "",
    "fn nested_ret(a: Int) -> Int \x7b",
    "    if a > 0 \x7b",
    "        return 1",
    "    \x7d else \x7b",
    "        return 2",
    "    \x7d",
    "\x7d",
    "",
    "fn nested_mut() \x7b",
    "    let mut x = 1",
    "    while x < 3 \x7b",
    "        if x < 2 \x7b x = x + 1 \x7d else \x7b x = x + 2 \x7d",
    "    \x7d",
    "\x7d",
    "",
    "break",
    "continue",
    "let topbad: Int = \"s\""]

def faultyPart (i : Nat) : List String :=
  let i := toString i
  ["let e_" ++ i ++ ": Int = \"s" ++ i ++ "\"", "let f_" ++ i ++ " = undef_" ++ i ++ " + 1"]

/-- The faulty program with `n` pairs of statements more. -/
def faulty (n : Int) : String :=
  joined (faultyBase ++ (List.range n.toNat).flatMap faultyPart)

/-! ### Tallies -/

/-- What a check of a program leaves: how many findings and warnings, and how long their texts are
together. -/
structure Tally where
  findings : Nat
  warnings : Nat
  findingsLength : Nat
  warningsLength : Nat
deriving DecidableEq, Repr

def tally (source : String) : Except CompileFailure Tally := do
  let program ← readProgram Span.unknownFile source
  let checked := Checker.new.check program
  return {
    findings := checked.findings.length
    warnings := checked.warnings.length
    findingsLength := checked.findings.foldl (fun n f => n + f.text.length) 0
    warningsLength := checked.warnings.foldl (fun n w => n + w.text.length) 0 }

end Owl.Bench.Workload
