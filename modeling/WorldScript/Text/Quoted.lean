import WorldScript.Text.Unprintable

/-!
Quoted texts, as listings and script states show them: a text between double quotes, with the
quote, the backslash and the common controls escaped by a letter and every other character
without a glyph written as its code point.
-/
set_option autoImplicit false

namespace WorldScript.Text

def hexDigits (n : Nat) : List Char :=
  if h : n < 16 then [Nat.digitChar n]
  else
    have : n / 16 < n := Nat.div_lt_self (by omega) (by decide)
    hexDigits (n / 16) ++ [Nat.digitChar (n % 16)]
termination_by n

/-- Hexadecimal digits, with zeros before them up to a width. -/
def paddedHex (width n : Nat) : List Char :=
  let ds := hexDigits n
  List.replicate (width - ds.length) '0' ++ ds

theorem isAlphanum_of_mem_hexDigits {n : Nat} {c : Char} (h : c ∈ hexDigits n) :
    c.isAlphanum = true := by
  have hdigit : ∀ d < 16, (Nat.digitChar d).isAlphanum = true := by decide
  induction n using hexDigits.induct with
  | case1 n hn =>
    rw [hexDigits, dif_pos hn, List.mem_singleton] at h
    exact h ▸ hdigit n hn
  | case2 n hn _ ih =>
    rw [hexDigits, dif_neg hn, List.mem_append, List.mem_singleton] at h
    obtain h | rfl := h
    · exact ih h
    · exact hdigit _ (Nat.mod_lt _ (by decide))

theorem isAlphanum_of_mem_paddedHex {width n : Nat} {c : Char} (h : c ∈ paddedHex width n) :
    c.isAlphanum = true := by
  rw [paddedHex, List.mem_append, List.mem_replicate] at h
  obtain ⟨-, rfl⟩ | h := h
  · rfl
  · exact isAlphanum_of_mem_hexDigits h

def escapeChar (c : Char) : List Char :=
  match c with
  | '"' => ['\\', '"']
  | '\\' => ['\\', '\\']
  | '\n' => ['\\', 'n']
  | '\r' => ['\\', 'r']
  | '\t' => ['\\', 't']
  | c =>
    if c.toNat = 0 then ['\\', '0']
    else if isUnprintable c then ['\\', 'u', '\x7b'] ++ hexDigits c.toNat ++ ['\x7d']
    else [c]

def quote (s : String) : String :=
  String.ofList ('"' :: s.toList.flatMap escapeChar ++ ['"'])

end WorldScript.Text
