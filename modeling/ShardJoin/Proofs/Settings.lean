/-
Settings from texts.

A look-up gives texts for some names.  Every text under the name of a setting
has to stand for a word: white space, a numeral, white space, where a numeral
is an optional plus sign and one or more decimal digits.  The grammar is said
here without the functions that trim and read.

* `Text.StandsFor`, `Text.read?_trimmed_iff` — the grammar, and that reading a
  trimmed text accepts exactly it;
* `Settings.ConfiguredBy`, `Settings.Refuses` — what a look-up has to be for
  settings to come from it, and what is wrong with one that is refused;
* `Settings.settles_ofLookup` — a look-up gives such settings or is refused for
  such a reason;
* `Settings.ofLookup_accepts_grammar` — which look-ups are accepted, what they
  give, and that settings are read back from their decimal notation.
-/
import Mathlib.Data.List.TakeWhile
import ShardJoin.Proofs.Wire.Digits
import ShardJoin.Settings

namespace ShardJoin

/-! ### White space and numerals -/

namespace Text

theorem dropWhile_isBlank_eq_self {cs : List Char} (h : ∀ c ∈ cs, isBlank c = false) :
    cs.dropWhile isBlank = cs := by
  cases cs with
  | nil => rfl
  | cons c cs => rw [List.dropWhile_cons_of_neg (by simp [h c List.mem_cons_self])]

/-- A text without white space is what is left of it between white space. -/
theorem trimmed_append {before cs after : List Char} (hbefore : ∀ c ∈ before, isBlank c = true)
    (hafter : ∀ c ∈ after, isBlank c = true) (hcs : ∀ c ∈ cs, isBlank c = false) :
    trimmed (before ++ cs ++ after) = cs := by
  have hstart : (before ++ cs ++ after).dropWhile isBlank = (cs ++ after).dropWhile isBlank := by
    rw [List.append_assoc, List.dropWhile_append_of_pos hbefore]
  cases cs with
  | nil =>
    -- there is nothing but white space, and it all goes at the start
    have hnone : ([] ++ after).dropWhile isBlank = [] := List.dropWhile_eq_nil_iff.2 hafter
    rw [trimmed, hstart, hnone]
    rfl
  | cons c cs =>
    have hfirst : (c :: cs ++ after).dropWhile isBlank = c :: cs ++ after :=
      List.dropWhile_cons_of_neg (by simp [hcs c List.mem_cons_self])
    have hlast : (c :: cs).reverse.dropWhile isBlank = (c :: cs).reverse :=
      dropWhile_isBlank_eq_self fun d hd => hcs d (List.mem_reverse.1 hd)
    rw [trimmed, hstart, hfirst, List.reverse_append,
      List.dropWhile_append_of_pos fun d hd => hafter d (List.mem_reverse.1 hd), hlast,
      List.reverse_reverse]

/-- A text is what is left when it is trimmed, between white space. -/
theorem exists_eq_append_trimmed (cs : List Char) :
    ∃ before after, cs = before ++ trimmed cs ++ after ∧ (∀ c ∈ before, isBlank c = true) ∧
      ∀ c ∈ after, isBlank c = true := by
  have hsplit := fun l : List Char => List.takeWhile_append_dropWhile (p := isBlank) (l := l)
  have hblank : ∀ l : List Char, ∀ c ∈ l.takeWhile isBlank, isBlank c = true :=
    fun l c hc => List.mem_takeWhile_imp hc
  refine ⟨cs.takeWhile isBlank, ((cs.dropWhile isBlank).reverse.takeWhile isBlank).reverse, ?_,
    hblank cs, fun c hc => hblank _ c (List.mem_reverse.1 hc)⟩
  rw [trimmed, List.append_assoc, ← List.reverse_append, hsplit, List.reverse_reverse, hsplit]

/-- One or more decimal digits for a number. -/
structure Writes (digits : List Char) (n : Nat) : Prop where
  ne_nil : digits ≠ []
  isDigit : ∀ c ∈ digits, c.isDigit = true
  value : Nat.ofDigitChars 10 digits 0 = n

/-- Decimal digits for a number, with or without a plus sign. -/
inductive Numeral : List Char → Nat → Prop where
  | plain {digits : List Char} {n : Nat} : Writes digits n → Numeral digits n
  | signed {digits : List Char} {n : Nat} : Writes digits n → Numeral ('+' :: digits) n

/-- A numeral for a number, between any white space. -/
def StandsFor (raw : String) (n : Nat) : Prop :=
  ∃ before cs after, raw.toList = before ++ cs ++ after ∧ (∀ c ∈ before, isBlank c = true) ∧
    (∀ c ∈ after, isBlank c = true) ∧ Numeral cs n

theorem isBlank_of_isDigit {c : Char} (h : c.isDigit = true) : isBlank c = false := by
  obtain ⟨hlow, hhigh⟩ : 48 ≤ c.toNat ∧ c.toNat ≤ 57 := by
    simpa [Char.isDigit, UInt32.le_iff_toNat_le] using h
  simp only [isBlank, Bool.or_eq_false_iff, Bool.and_eq_false_iff, decide_eq_false_iff_not,
    beq_eq_false_iff_ne]
  omega

theorem Writes.isBlank {digits : List Char} {n : Nat} (h : Writes digits n) :
    ∀ c ∈ digits, Text.isBlank c = false :=
  fun c hc => isBlank_of_isDigit (h.isDigit c hc)

theorem Numeral.isBlank {cs : List Char} {n : Nat} (h : Numeral cs n) :
    ∀ c ∈ cs, Text.isBlank c = false := by
  cases h with
  | plain h => exact h.isBlank
  | signed h => exact List.forall_mem_cons.2 ⟨by decide, h.isBlank⟩

theorem readNat?_eq_some_iff {cs : List Char} {n : Nat} :
    Word.readNat? cs = some n ↔ Writes cs n := by
  cases cs with
  | nil => exact iff_of_false (by simp [Word.readNat?]) fun h => h.ne_nil rfl
  | cons c cs =>
    rw [Word.readNat?]
    constructor
    · intro h
      have hdigits := Word.isDigit_of_readDigits? h
      rw [Word.readDigits?_eq_some hdigits] at h
      exact ⟨List.cons_ne_nil _ _, hdigits, Option.some.inj h⟩
    · intro h
      rw [Word.readDigits?_eq_some h.isDigit, h.value]

theorem writes_toDigits (n : Nat) : Writes (Nat.toDigits 10 n) n :=
  readNat?_eq_some_iff.1 (Word.readNat?_toDigits n)

/-- A plus sign is no digit, so it is the sign of a numeral that begins with it. -/
theorem numeral_cons_plus_iff {cs : List Char} {n : Nat} :
    Numeral ('+' :: cs) n ↔ Writes cs n := by
  refine ⟨fun h => ?_, .signed⟩
  cases h with
  | plain h => exact absurd (h.isDigit '+' List.mem_cons_self) (by decide)
  | signed h => exact h

theorem read?_eq_some_iff {cs : List Char} {w : UInt64} :
    Word.read? cs = some w ↔ Numeral cs w.toNat := by
  have hword : ∀ digits : List Char, ((Word.readNat? digits).bind fun n =>
      if n < UInt64.size then some (UInt64.ofNat n) else none) = some w ↔
        Writes digits w.toNat := fun digits => by
    rw [← readNat?_eq_some_iff, Option.bind_eq_some_iff]
    constructor
    · rintro ⟨n, hn, hw⟩
      rw [Option.ite_none_right_eq_some] at hw
      obtain ⟨hlt, hw⟩ := hw
      obtain rfl := Option.some.inj hw
      rwa [UInt64.toNat_ofNat_of_lt' hlt]
    · exact fun h => ⟨w.toNat, h, by rw [if_pos w.toNat_lt_size, UInt64.ofNat_toNat]⟩
  unfold Word.read?
  split
  · rw [hword, numeral_cons_plus_iff]
  · rename_i hplus
    rw [hword]
    refine ⟨.plain, fun h => ?_⟩
    cases h with
    | plain h => exact h
    | signed h => exact absurd rfl (hplus _)

/-- Trimming and reading accepts the numerals between white space, and gives their numbers. -/
theorem read?_trimmed_iff {raw : String} {w : UInt64} :
    Word.read? (trimmed raw.toList) = some w ↔ StandsFor raw w.toNat := by
  rw [read?_eq_some_iff]
  constructor
  · intro h
    obtain ⟨before, after, heq, hbefore, hafter⟩ := exists_eq_append_trimmed raw.toList
    exact ⟨before, _, after, heq, hbefore, hafter, h⟩
  · rintro ⟨before, cs, after, heq, hbefore, hafter, h⟩
    rwa [heq, trimmed_append hbefore hafter h.isBlank]

/-- A number in decimal notation, between white space, stands for itself. -/
theorem standsFor_toString {before after : String} (hbefore : ∀ c ∈ before.toList, isBlank c = true)
    (hafter : ∀ c ∈ after.toList, isBlank c = true) (n : Nat) :
    StandsFor (before ++ toString n ++ after) n := by
  refine ⟨before.toList, Nat.toDigits 10 n, after.toList, ?_, hbefore, hafter,
    .plain (writes_toDigits n)⟩
  rw [String.toList_append, String.toList_append, Nat.toString_eq_repr, Nat.toList_repr]

end Text

/-! ### Keys -/

namespace Settings

/-- The setting that a key overrides. -/
def value (s : Settings) : Key → UInt64
  | .selectLimit => s.selectLimit
  | .pageSize => s.pageSize
  | .nodeBudget => s.nodeBudget
  | .jobLimit => s.jobLimit

theorem eq_of_value {s t : Settings} (h : ∀ key, s.value key = t.value key) : s = t := by
  cases s
  cases t
  rw [mk.injEq]
  exact ⟨h .selectLimit, h .pageSize, h .nodeBudget, h .jobLimit⟩

variable {lookup : String → Option String}

/-- A look-up gives a word for a key: the one that its text stands for, or the standard one if the
key has no text. -/
inductive Gives (lookup : String → Option String) (key : Key) : UInt64 → Prop where
  | absent : lookup key.name = none → Gives lookup key (standard.value key)
  | text {raw : String} {w : UInt64} : lookup key.name = some raw → Text.StandsFor raw w.toNat →
      Gives lookup key w

theorem readKey_eq_ok_iff {key : Key} {w : UInt64} :
    readKey lookup key (standard.value key) = .ok w ↔ Gives lookup key w := by
  unfold readKey
  constructor
  · intro h
    split at h
    · rename_i hnone
      obtain rfl := Except.ok.inj h
      exact .absent hnone
    · rename_i raw hraw
      split at h
      · rename_i hread
        obtain rfl := Except.ok.inj h
        exact .text hraw (Text.read?_trimmed_iff.1 hread)
      · cases h
  · rintro (hnone | ⟨hraw, hword⟩)
    · rw [hnone]
    · rw [hraw]
      simp only [Text.read?_trimmed_iff.2 hword]

/-- A key that is refused has a text that stands for no word. -/
theorem readKey_eq_error {key : Key} {default : UInt64} {fault : SettingFault}
    (h : readKey lookup key default = .error fault) :
    ∃ raw, lookup key.name = some raw ∧ (∀ n < UInt64.size, ¬Text.StandsFor raw n) ∧
      fault = .notANumber key.name raw := by
  unfold readKey at h
  split at h
  · cases h
  · rename_i raw hraw
    split at h
    · cases h
    · rename_i hread
      refine ⟨raw, hraw, fun n hn hstands => ?_, (Except.error.inj h).symm⟩
      rw [← UInt64.toNat_ofNat_of_lt' hn] at hstands
      rw [Text.read?_trimmed_iff.2 hstands] at hread
      cases hread

/-- What is given for a key with a text is what the text stands for. -/
theorem Gives.standsFor {key : Key} {w : UInt64} (h : Gives lookup key w) {raw : String}
    (hraw : lookup key.name = some raw) : Text.StandsFor raw w.toNat := by
  cases h with
  | absent hnone =>
    rw [hraw] at hnone
    cases hnone
  | text hraw' hstands =>
    rw [hraw, Option.some.injEq] at hraw'
    rwa [hraw']

theorem Gives.unique {key : Key} {v w : UInt64} (hv : Gives lookup key v)
    (hw : Gives lookup key w) : v = w := by
  rw [← readKey_eq_ok_iff] at hv hw
  exact Except.ok.inj (hv.symm.trans hw)

/-! ### Look-ups -/

/-- The settings that come from a look-up: what it gives for the keys, with a limit and a page size
that are not zero. -/
structure ConfiguredBy (s : Settings) (lookup : String → Option String) : Prop where
  gives : ∀ key, Gives lookup key (s.value key)
  selectLimit : s.selectLimit ≠ 0
  pageSize : s.pageSize ≠ 0

/-- What is wrong with a look-up: a text stands for no word, or all do and the limit or the page
size is zero. -/
inductive Refuses (lookup : String → Option String) : SettingFault → Prop where
  | notANumber {key : Key} {raw : String} : lookup key.name = some raw →
      (∀ n < UInt64.size, ¬Text.StandsFor raw n) → Refuses lookup (.notANumber key.name raw)
  | zeroSelectLimit : (∀ key, ∃ w, Gives lookup key w) → Gives lookup .selectLimit 0 →
      Refuses lookup .zeroSelectLimit
  | zeroPageSize : (∀ key, ∃ w, Gives lookup key w) → Gives lookup .pageSize 0 →
      Refuses lookup .zeroPageSize

/-- A look-up has settled: on the settings that come from it, or on what is wrong with it. -/
def Settles (lookup : String → Option String) : Except SettingFault Settings → Prop
  | .ok s => s.ConfiguredBy lookup
  | .error fault => Refuses lookup fault

theorem settles_bind {key : Key} {next : UInt64 → Except SettingFault Settings}
    (h : ∀ w, Gives lookup key w → Settles lookup (next w)) :
    Settles lookup (readKey lookup key (standard.value key) >>= next) := by
  cases hread : readKey lookup key (standard.value key) with
  | ok w => exact h w (readKey_eq_ok_iff.1 hread)
  | error fault =>
    obtain ⟨raw, hraw, hno, rfl⟩ := readKey_eq_error hread
    exact .notANumber hraw hno

/-- The limit and the page size are tested once everything has been read. -/
theorem settles_validate {s : Settings} (h : ∀ key, Gives lookup key (s.value key)) :
    Settles lookup (s.validate >>= fun _ => .ok s) := by
  have hgiven : ∀ key, ∃ w, Gives lookup key w := fun key => ⟨_, h key⟩
  unfold validate
  split
  case isTrue hlimit => exact .zeroSelectLimit hgiven (hlimit ▸ h .selectLimit)
  case isFalse hlimit =>
    split
    case isTrue hpage => exact .zeroPageSize hgiven (hpage ▸ h .pageSize)
    case isFalse hpage => exact ⟨h, hlimit, hpage⟩

/-- A look-up gives the settings that come from it, or is refused for what is wrong with it. -/
theorem settles_ofLookup (lookup : String → Option String) : Settles lookup (ofLookup lookup) := by
  refine settles_bind fun limit hlimit => settles_bind fun page hpage =>
    settles_bind fun budget hbudget => settles_bind fun job hjob => settles_validate ?_
  rintro (_ | _ | _ | _)
  · exact hlimit
  · exact hpage
  · exact hbudget
  · exact hjob

theorem ConfiguredBy.unique {s t : Settings} (hs : s.ConfiguredBy lookup)
    (ht : t.ConfiguredBy lookup) : s = t :=
  eq_of_value fun key => (hs.gives key).unique (ht.gives key)

/-- No settings come from a look-up that something is wrong with. -/
theorem Refuses.not_configuredBy {fault : SettingFault} (h : Refuses lookup fault) (s : Settings) :
    ¬s.ConfiguredBy lookup := by
  intro hs
  cases h with
  | @notANumber key raw hraw hno =>
    exact hno _ (UInt64.toNat_lt_size _) ((hs.gives key).standsFor hraw)
  | zeroSelectLimit _ hzero => exact hs.selectLimit ((hs.gives .selectLimit).unique hzero)
  | zeroPageSize _ hzero => exact hs.pageSize ((hs.gives .pageSize).unique hzero)

theorem ofLookup_eq_ok_iff {s : Settings} : ofLookup lookup = .ok s ↔ s.ConfiguredBy lookup := by
  have hsettles := settles_ofLookup lookup
  constructor
  · intro h
    rwa [h] at hsettles
  · intro h
    cases hof : ofLookup lookup with
    | ok t =>
      rw [hof] at hsettles
      rw [hsettles.unique h]
    | error fault =>
      rw [hof] at hsettles
      exact absurd h (hsettles.not_configuredBy s)

/-- A look-up whose texts all stand for words, and not for zero if they are for the limit or the
page size. -/
structure Admissible (lookup : String → Option String) : Prop where
  words : ∀ (key : Key) (raw : String), lookup key.name = some raw →
    ∃ n < UInt64.size, Text.StandsFor raw n
  selectLimit : ∀ raw, lookup Key.selectLimit.name = some raw → ¬Text.StandsFor raw 0
  pageSize : ∀ raw, lookup Key.pageSize.name = some raw → ¬Text.StandsFor raw 0

theorem Admissible.exists_gives (h : Admissible lookup) (key : Key) : ∃ w, Gives lookup key w := by
  cases hraw : lookup key.name with
  | none => exact ⟨_, .absent hraw⟩
  | some raw =>
    obtain ⟨n, hn, hstands⟩ := h.words key raw hraw
    rw [← UInt64.toNat_ofNat_of_lt' hn] at hstands
    exact ⟨_, .text hraw hstands⟩

/-- What is given for a key is not zero if the standard is not, and no text stands for zero. -/
theorem Gives.ne_zero {key : Key} {w : UInt64} (h : Gives lookup key w)
    (hstandard : standard.value key ≠ 0)
    (htext : ∀ raw, lookup key.name = some raw → ¬Text.StandsFor raw 0) : w ≠ 0 := by
  cases h with
  | absent => exact hstandard
  | text hraw hstands =>
    rintro rfl
    exact htext _ hraw hstands

theorem exists_configuredBy_iff : (∃ s : Settings, s.ConfiguredBy lookup) ↔ Admissible lookup := by
  constructor
  · rintro ⟨s, hs⟩
    have hzero : ∀ {key : Key}, s.value key ≠ 0 → ∀ raw, lookup key.name = some raw →
        ¬Text.StandsFor raw 0 := fun hne raw hraw hstands =>
      hne ((hs.gives _).unique (.text hraw hstands))
    refine ⟨fun key raw hraw => ?_, hzero hs.selectLimit, hzero hs.pageSize⟩
    exact ⟨_, UInt64.toNat_lt_size _, (hs.gives key).standsFor hraw⟩
  · intro h
    choose f hf using h.exists_gives
    refine ⟨⟨f .selectLimit, f .pageSize, f .nodeBudget, f .jobLimit⟩, ?_,
      (hf .selectLimit).ne_zero (by decide) h.selectLimit,
      (hf .pageSize).ne_zero (by decide) h.pageSize⟩
    rintro (_ | _ | _ | _) <;> exact hf _

/-- The settings stand in a look-up in decimal notation, between any white space. -/
def WrittenIn (s : Settings) (lookup : String → Option String) : Prop :=
  ∀ key, ∃ before after : String, (∀ c ∈ before.toList, Text.isBlank c = true) ∧
    (∀ c ∈ after.toList, Text.isBlank c = true) ∧
    lookup key.name = some (before ++ toString (s.value key).toNat ++ after)

theorem gives_of_writtenIn {s : Settings} (h : s.WrittenIn lookup) (key : Key) :
    Gives lookup key (s.value key) := by
  obtain ⟨before, after, hbefore, hafter, hraw⟩ := h key
  exact .text hraw (Text.standsFor_toString hbefore hafter _)

/-- Only the texts under the names of the keys matter. -/
theorem ofLookup_congr {lookup' : String → Option String}
    (h : ∀ key : Key, lookup' key.name = lookup key.name) : ofLookup lookup' = ofLookup lookup := by
  have hread : ∀ key default, readKey lookup' key default = readKey lookup key default :=
    fun key default => by rw [readKey, readKey, h]
  simp only [ofLookup, hread]

/-- A look-up is accepted if and only if every text under the name of a key is a numeral for a word
between white space, and not one for zero if it is for the limit or the page size.  The settings
are then what the texts stand for, or standard where there is no text; any other look-up is refused
for something that is wrong with it; texts under other names do not matter; and settings are read
back from their decimal notation between any white space. -/
theorem ofLookup_accepts_grammar (lookup : String → Option String) :
    ((∃ s, ofLookup lookup = .ok s) ↔ Admissible lookup) ∧
      (∀ s : Settings, ofLookup lookup = .ok s ↔ s.ConfiguredBy lookup) ∧
      (¬Admissible lookup → ∃ fault, ofLookup lookup = .error fault ∧ Refuses lookup fault) ∧
      (∀ lookup' : String → Option String, (∀ key : Key, lookup' key.name = lookup key.name) →
        ofLookup lookup' = ofLookup lookup) ∧
      ∀ s : Settings, s.selectLimit ≠ 0 → s.pageSize ≠ 0 → s.WrittenIn lookup →
        ofLookup lookup = .ok s := by
  have hadmissible : (∃ s, ofLookup lookup = .ok s) ↔ Admissible lookup := by
    simp only [ofLookup_eq_ok_iff]
    exact exists_configuredBy_iff
  refine ⟨hadmissible, fun s => ofLookup_eq_ok_iff, fun hnot => ?_,
    fun lookup' h => ofLookup_congr h, fun s hlimit hpage h => ?_⟩
  · have hsettles := settles_ofLookup lookup
    cases hof : ofLookup lookup with
    | ok s => exact absurd (hadmissible.1 ⟨s, hof⟩) hnot
    | error fault =>
      rw [hof] at hsettles
      exact ⟨fault, rfl, hsettles⟩
  · exact ofLookup_eq_ok_iff.2 ⟨gives_of_writtenIn h, hlimit, hpage⟩

/-- Texts for all keys, with white space around two of them. -/
def padded (page budget name : String) : Option String :=
  [(Key.selectLimit.name, "\u20037\t"), (Key.pageSize.name, page), (Key.nodeBudget.name, budget),
    (Key.jobLimit.name, "0\n")].lookup name

/-- Plus sign, leading zeros and the largest word are accepted, whatever stands under another name;
the number after the largest word is refused; and decimal notation is read back. -/
theorem ofLookup_accepts_grammar_padded :
    (Admissible (padded "+0001" "18446744073709551615") ∧
      (⟨7, 1, Word.max, 0⟩ : Settings).ConfiguredBy (padded "+0001" "18446744073709551615") ∧
      ofLookup (fun name => if name = "NLQ_OTHER" then some "many"
        else padded "+0001" "18446744073709551615" name) = .ok ⟨7, 1, Word.max, 0⟩) ∧
    (¬Admissible (padded "1" "18446744073709551616") ∧ ∃ fault,
      ofLookup (padded "1" "18446744073709551616") = .error fault ∧
        Refuses (padded "1" "18446744073709551616") fault) ∧
    (⟨7, 1, Word.max, 0⟩ : Settings).WrittenIn (padded "1" "18446744073709551615") ∧
      ofLookup (padded "1" "18446744073709551615") = .ok ⟨7, 1, Word.max, 0⟩ := by
  refine ⟨?_, ?_, ?_⟩
  · obtain ⟨haccepts, hconfigured, -, hothers, -⟩ :=
      ofLookup_accepts_grammar (padded "+0001" "18446744073709551615")
    have hok : ofLookup (padded "+0001" "18446744073709551615") = .ok ⟨7, 1, Word.max, 0⟩ := rfl
    refine ⟨haccepts.1 ⟨_, hok⟩, (hconfigured _).1 hok, (hothers _ ?_).trans hok⟩
    rintro (_ | _ | _ | _) <;> rfl
  · obtain ⟨haccepts, -, hrefused, -, -⟩ :=
      ofLookup_accepts_grammar (padded "1" "18446744073709551616")
    have herror : ofLookup (padded "1" "18446744073709551616") =
        .error (.notANumber Key.nodeBudget.name "18446744073709551616") := rfl
    have hnot : ¬Admissible (padded "1" "18446744073709551616") := by
      rw [← haccepts, herror]
      rintro ⟨s, h⟩
      cases h
    exact ⟨hnot, hrefused hnot⟩
  · obtain ⟨-, -, -, -, hreadBack⟩ := ofLookup_accepts_grammar (padded "1" "18446744073709551615")
    have hwritten : (⟨7, 1, Word.max, 0⟩ : Settings).WrittenIn
        (padded "1" "18446744073709551615") := by
      rintro (_ | _ | _ | _)
      · exact ⟨"\u2003", "\t", List.all_eq_true.1 rfl, List.all_eq_true.1 rfl, rfl⟩
      · exact ⟨"", "", List.all_eq_true.1 rfl, List.all_eq_true.1 rfl, rfl⟩
      · exact ⟨"", "", List.all_eq_true.1 rfl, List.all_eq_true.1 rfl, rfl⟩
      · exact ⟨"", "\n", List.all_eq_true.1 rfl, List.all_eq_true.1 rfl, rfl⟩
    exact ⟨hwritten, hreadBack _ (by decide) (by decide) hwritten⟩

end Settings

end ShardJoin
