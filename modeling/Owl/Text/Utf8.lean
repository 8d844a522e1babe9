/-
Reading UTF-8.

`decode` accepts exactly the shortest forms of the code points that are no
surrogates.  A fault says where the first bad sequence starts, how many bytes of
it were good to begin with, and what is wrong with the next one.
-/
import Owl.Text.Quoted

namespace Owl.Text

/-- What is wrong with a sequence of bytes. -/
inductive DecodeReason
  | invalidStart
  | invalidContinuation
  | truncated
deriving DecidableEq, Repr

def DecodeReason.message : DecodeReason → String
  | invalidStart => "invalid start byte"
  | invalidContinuation => "invalid continuation byte"
  | truncated => "unexpected end of data"

/-- A sequence of bytes that is no character. -/
structure DecodeFault where
  reason : DecodeReason
  /-- The first byte of the sequence. -/
  first : UInt8
  /-- Where the sequence starts. -/
  start : Nat
  /-- How many bytes it has. -/
  length : Nat
deriving DecidableEq, Repr

def DecodeFault.message (f : DecodeFault) : String :=
  let place :=
    if f.length == 1 then
      "byte 0x" ++ String.ofList (hex 2 f.first.toNat) ++ " in position " ++ toString f.start
    else
      "bytes in position " ++ toString f.start ++ "-" ++ toString (f.start + f.length - 1)
  "'utf-8' codec can't decode " ++ place ++ ": " ++ f.reason.message

/-- Whether a byte can follow the first one of a sequence. -/
def isContinuation (b : UInt8) : Bool := 0x80 ≤ b && b ≤ 0xBF

/-- Whether a byte can be the second one after a first one: what would be no shortest form, a
surrogate or too large is excluded. -/
def isSecond (first second : UInt8) : Bool :=
  if first == 0xE0 then 0xA0 ≤ second && second ≤ 0xBF
  else if first == 0xED then 0x80 ≤ second && second ≤ 0x9F
  else if first == 0xF0 then 0x90 ≤ second && second ≤ 0xBF
  else if first == 0xF4 then 0x80 ≤ second && second ≤ 0x8F
  else isContinuation second

/-- The code point of the payload bits of a sequence: those of the first byte, then six of each
other one. -/
def codePoint (lead : Nat) (others : List UInt8) : Char :=
  Char.ofNat (others.foldl (fun n b => n * 64 + (b.toNat - 0x80)) lead)

/-- Reads bytes, of which the first one stands at a place. -/
def decodeFrom (place : Nat) : List UInt8 → Except DecodeFault (List Char)
  | [] => .ok []
  | a :: rest =>
    if a < 0x80 then
      (decodeFrom (place + 1) rest).map (Char.ofNat a.toNat :: ·)
    else if a < 0xC2 || 0xF4 < a then .error ⟨.invalidStart, a, place, 1⟩
    else match rest with
    | [] => .error ⟨.truncated, a, place, 1⟩
    | b :: rest =>
      if !isSecond a b then .error ⟨.invalidContinuation, a, place, 1⟩
      else if a < 0xE0 then
        (decodeFrom (place + 2) rest).map (codePoint (a.toNat - 0xC0) [b] :: ·)
      else match rest with
      | [] => .error ⟨.truncated, a, place, 2⟩
      | c :: rest =>
        if !isContinuation c then .error ⟨.invalidContinuation, a, place, 2⟩
        else if a < 0xF0 then
          (decodeFrom (place + 3) rest).map (codePoint (a.toNat - 0xE0) [b, c] :: ·)
        else match rest with
        | [] => .error ⟨.truncated, a, place, 3⟩
        | d :: rest =>
          if !isContinuation d then .error ⟨.invalidContinuation, a, place, 3⟩
          else (decodeFrom (place + 4) rest).map (codePoint (a.toNat - 0xF0) [b, c, d] :: ·)

/-- Ends every line with a line feed: a carriage return counts as one, together with a line feed
that follows it. -/
def lineFeeds : List Char → List Char
  | [] => []
  | '\r' :: '\n' :: cs => '\n' :: lineFeeds cs
  | '\r' :: cs => '\n' :: lineFeeds cs
  | c :: cs => c :: lineFeeds cs

def decode (bytes : List UInt8) : Except DecodeFault String :=
  (decodeFrom 0 bytes).map fun cs => String.ofList (lineFeeds cs)

def encode (s : String) : List UInt8 := s.toUTF8.toList

end Owl.Text
