/-
Numbers read back from their digits.

A double is shipped as the digits of its bits in base 16, the most significant
first; an id that is the key of a map is shipped in decimal notation.  Both
readers take the digits from the left and carry the number read so far, so
each is described for an arbitrary number to start with:

* `readHex?_hexDigits` — what reading the digits of a number in base 16 adds;
* `Word.readDigits?_eq_some` — decimal digits are read as the number they write,
  and nothing else is (`Word.isDigit_of_readDigits?`);
* `intOfText?_toString` — an integer is read back from its decimal notation.
-/
import Mathlib.Tactic.Ring
import ShardJoin.Wire.Basic

namespace ShardJoin

/-! ### Decimal notation -/

namespace Word

theorem digit?_of_isDigit {c : Char} (h : c.isDigit = true) :
    digit? c = some (c.toNat - '0'.toNat) := by
  rw [Char.isDigit, Bool.and_eq_true, decide_eq_true_eq, decide_eq_true_eq] at h
  exact if_pos h

theorem readDigits?_eq_some {cs : List Char} (h : ∀ c ∈ cs, c.isDigit = true) (value : Nat) :
    readDigits? value cs = some (Nat.ofDigitChars 10 cs value) := by
  induction cs generalizing value with
  | nil => simp [readDigits?]
  | cons c cs ih =>
    obtain ⟨hc, hcs⟩ := List.forall_mem_cons.1 h
    rw [readDigits?, digit?_of_isDigit hc, Option.bind_some, ih hcs, Nat.ofDigitChars_cons]

/-- Nothing but decimal digits is read. -/
theorem isDigit_of_readDigits? {cs : List Char} {value n : Nat}
    (h : readDigits? value cs = some n) : ∀ c ∈ cs, c.isDigit = true := by
  induction cs generalizing value with
  | nil => exact List.forall_mem_nil _
  | cons c cs ih =>
    obtain ⟨d, hd, hcs⟩ := Option.bind_eq_some_iff.1 h
    refine List.forall_mem_cons.2 ⟨?_, ih hcs⟩
    rw [digit?, Option.ite_none_right_eq_some] at hd
    rw [Char.isDigit, Bool.and_eq_true, decide_eq_true_eq, decide_eq_true_eq]
    exact hd.1

theorem readNat?_toDigits (n : Nat) : readNat? (Nat.toDigits 10 n) = some n := by
  have hdigits : ∀ c ∈ Nat.toDigits 10 n, c.isDigit = true := fun c hc =>
    Nat.isDigit_of_mem_toDigits (by decide) (by decide) hc
  have hvalue : Nat.ofDigitChars 10 (Nat.toDigits 10 n) 0 = n := Nat.ofDigitChars_ten_toDigits
  cases hcs : Nat.toDigits 10 n with
  | nil => exact absurd hcs Nat.toDigits_ne_nil
  | cons c cs =>
    rw [hcs] at hdigits hvalue
    rw [readNat?, readDigits?_eq_some hdigits, hvalue]

end Word

namespace Wire

theorem intOfText?_natCast (n : Nat) : intOfText? (toString (n : Int)) = some (n : Int) := by
  have htext : (toString (n : Int)).toList = Nat.toDigits 10 n := by
    rw [Int.toString_eq_repr]
    exact Nat.toList_repr
  have hread := Word.readNat?_toDigits n
  unfold intOfText?
  rw [htext]
  split
  · -- a minus sign is no digit
    rename_i rest hsign
    have := Nat.isDigit_of_mem_toDigits (b := 10) (n := n) (c := '-') (by decide) (by decide)
      (hsign ▸ List.mem_cons_self)
    exact absurd this (by decide)
  · rw [hread]
    simp

theorem intOfText?_neg (n : Nat) :
    intOfText? (toString (Int.negSucc n)) = some (Int.negSucc n) := by
  have htext : (toString (Int.negSucc n)).toList = '-' :: Nat.toDigits 10 (n + 1) := by
    rw [Int.toString_eq_repr, Int.repr, String.toList_append, Nat.toList_repr]
    rfl
  unfold intOfText?
  rw [htext]
  simp only [Word.readNat?_toDigits]
  show Option.filter _ (some (Int.negSucc n)) = some (Int.negSucc n)
  simp

/-- An integer is read back from its decimal notation. -/
theorem intOfText?_toString (n : Int) : intOfText? (toString n) = some n := by
  cases n with
  | ofNat n => exact intOfText?_natCast n
  | negSucc n => exact intOfText?_neg n

/-! ### Base 16 -/

theorem hexDigit?_digitChar : ∀ d < 16, hexDigit? (Nat.digitChar d) = some d := by decide

@[simp] theorem length_hexDigits (width n : Nat) : (hexDigits width n).length = width := by
  simp [hexDigits]

theorem hexDigits_succ (width n : Nat) :
    hexDigits (width + 1) n = Nat.digitChar (n / 16 ^ width % 16) :: hexDigits width n := by
  have hshift : n >>> (4 * width) = n / 16 ^ width := by
    rw [Nat.shiftRight_eq_div_pow, Nat.pow_mul]
  rw [hexDigits, List.range_succ_eq_map, List.map_cons, List.map_map, hexDigits]
  congr 1
  · rw [Nat.add_sub_cancel, Nat.sub_zero, hshift]
  · refine List.map_congr_left fun i _ => ?_
    rw [Function.comp_apply, show width + 1 - 1 - i.succ = width - 1 - i by omega]

/-- The digits of a number continue the number read so far. -/
theorem readHex?_hexDigits (value width n : Nat) :
    readHex? value (hexDigits width n) = some (value * 16 ^ width + n % 16 ^ width) := by
  induction width generalizing value with
  | zero => simp [hexDigits, readHex?, Nat.mod_one]
  | succ width ih =>
    have hdigit := hexDigit?_digitChar (n / 16 ^ width % 16) (Nat.mod_lt _ (by decide))
    rw [hexDigits_succ, readHex?, hdigit, Option.bind_some, ih, Nat.mod_pow_succ, Nat.pow_succ]
    congr 1
    ring

end Wire

end ShardJoin
