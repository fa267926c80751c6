import TileTrace.Snapshot.Node
import TileTrace.Text.Utf8

/-!
# JSON strings

A string is written between double quotes, with quotes, backslashes and controls escaped. One who wants
its text needs pairs of surrogates to be complete and the bytes to be UTF-8; one who only passes over it
does not look so closely.
-/

namespace TileTrace.Json.Quoted

open Snapshot

/-! ## Writing -/

def escape (c : Char) : List Char :=
  match c with
  | '"' => ['\\', '"']
  | '\\' => ['\\', '\\']
  | '\x08' => ['\\', 'b']
  | '\x0c' => ['\\', 'f']
  | '\n' => ['\\', 'n']
  | '\r' => ['\\', 'r']
  | '\t' => ['\\', 't']
  | c => if c.toNat < 0x20 then ['\\', 'u'] ++ Numeral.writeFixed 16 4 c.toNat else [c]

def write (s : String) : List Char :=
  ['"'] ++ s.toList.flatMap escape ++ ['"']

/-! ## Reading -/

def hex? (b : UInt8) : Option Nat :=
  Numeral.digit? 16 (Char.ofNat b.toNat)

def hex4 (a b c d : UInt8) : Option Nat := do
  return ((← hex? a) * 16 + (← hex? b)) * 256 + (← hex? c) * 16 + (← hex? d)

def letter? (b : UInt8) : Option UInt8 :=
  match b with
  | 0x22 => some 0x22
  | 0x5c => some 0x5c
  | 0x2f => some 0x2f
  | 0x62 => some 0x08
  | 0x66 => some 0x0c
  | 0x6e => some 0x0a
  | 0x72 => some 0x0d
  | 0x74 => some 0x09
  | _ => none

def skip : List UInt8 → Except Fault (List UInt8)
  | [] => .error .endOfInput
  | 0x22 :: s => .ok s
  | 0x5c :: 0x75 :: a :: b :: c :: d :: s => if (hex4 a b c d).isSome then skip s else .error .badSyntax
  | 0x5c :: 0x75 :: _ => .error .endOfInput
  | 0x5c :: b :: s => if (letter? b).isSome then skip s else .error .badSyntax
  | [0x5c] => .error .endOfInput
  | b :: s => if b < 0x20 then .error .badSyntax else skip s

theorem skip_length {s rest : List UInt8} (h : skip s = .ok rest) : rest.length < s.length := by
  fun_induction skip s with
  | case1 => cases h
  | case2 s => simp only [Except.ok.injEq] at h; rw [h]; exact Nat.lt_succ_self _
  | case3 a b c d s hx ih => have := ih h; simp only [List.length_cons]; omega
  | case4 => cases h
  | case5 => cases h
  | case6 b s _ _ hx ih => have := ih h; simp only [List.length_cons]; omega
  | case7 => cases h
  | case8 => cases h
  | case9 => cases h
  | case10 b s _ _ _ _ _ _ ih => have := ih h; simp only [List.length_cons]; omega

def utf8 (n : Nat) : List UInt8 :=
  String.utf8EncodeChar (Char.ofNat n)

def bytes : List UInt8 → Except Fault (List UInt8)
  | [] => .error .endOfInput
  | 0x22 :: _ => .ok []
  | 0x5c :: 0x75 :: a :: b :: c :: d :: s =>
    match hex4 a b c d with
    | none => .error .badSyntax
    | some n =>
      if n < 0xd800 ∨ 0xe000 ≤ n then (utf8 n ++ ·) <$> bytes s
      else if 0xdc00 ≤ n then .error .badSyntax
      else
        -- the first half of a pair: the second half has to follow at once
        match s with
        | 0x5c :: 0x75 :: a :: b :: c :: d :: s =>
          match hex4 a b c d with
          | none => .error .badSyntax
          | some m =>
            if 0xdc00 ≤ m ∧ m < 0xe000 then
              (utf8 ((n - 0xd800) * 0x400 + (m - 0xdc00) + 0x10000) ++ ·) <$> bytes s
            else .error .badSyntax
        | 0x5c :: 0x75 :: _ => .error .endOfInput
        | [0x5c] => .error .endOfInput
        | [] => .error .endOfInput
        | _ => .error .badSyntax
  | 0x5c :: 0x75 :: _ => .error .endOfInput
  | 0x5c :: b :: s =>
    match letter? b with
    | some e => (e :: ·) <$> bytes s
    | none => .error .badSyntax
  | [0x5c] => .error .endOfInput
  | b :: s => if b < 0x20 then .error .badSyntax else (b :: ·) <$> bytes s

def node (s : List UInt8) : Node :=
  let passed := match skip s with
    | .ok _ => none
    | .error f => some f
  match bytes s with
  | .ok b =>
    match Utf8.decodeString? b with
    | some t => .text t
    | none => .defect { wanted := .badSyntax, passed }
  | .error f => .defect { wanted := f, passed }

end TileTrace.Json.Quoted
