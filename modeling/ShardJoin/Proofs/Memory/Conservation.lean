/-
The counter of a budget and the accounts behind it.

Every operation moves as many bytes on the budget as on the account
(`Account.Moves`), so the counter of the budget stays the sum of what the
accounts hold: modulo the word size if the budget is not checked, exactly and
within the capacity if it is.

* `Account.charge_moves`, `Account.release_moves`, `Account.close_moves` — what
  one operation does to the two counters;
* `Pool.sound_step?` — a step of a holder keeps a pool sound;
* `Pool.run_conserves` — after any script the counters agree, no account is
  over its limit, a closed account is empty and refuses charges, and with a
  checked budget no subtraction on a counter goes below zero.
-/
import Mathlib.Algebra.BigOperators.Group.List.Basic
import Mathlib.Data.Nat.ModEq
import ShardJoin.Proofs.Memory.Checked
import ShardJoin.Proofs.SortedMap

namespace ShardJoin

theorem Word.le_max (w : UInt64) : w ≤ max := by
  rw [UInt64.le_iff_toNat_le]
  exact Nat.le_of_lt_succ w.toNat_lt_size

theorem Word.toNat_lt_max {w : UInt64} (h : w < Word.max) : w.toNat < UInt64.size - 1 := by
  rw [UInt64.lt_iff_toNat_lt] at h
  exact h

/-- Below the largest word the sum is exact. -/
theorem Word.toNat_saturatingAdd_of_le {a b bound : UInt64} (hbound : bound < Word.max)
    (h : Word.saturatingAdd a b ≤ bound) :
    (Word.saturatingAdd a b).toNat = a.toNat + b.toNat := by
  have hsum := Word.toNat_saturatingAdd a b
  have hlt := Word.toNat_lt_max hbound
  rw [UInt64.le_iff_toNat_le] at h
  omega

namespace Budget

/-- What a granted reservation does to the counter. -/
theorem reserve?_eq_some {b b' : Budget} {bytes : UInt64} (h : b.reserve? bytes = some b') :
    b'.capacity = b.capacity ∧ b'.inUse.toNat ≡ b.inUse.toNat + bytes.toNat [MOD UInt64.size] ∧
      (b.capacity < Word.max →
        b'.inUse.toNat = b.inUse.toNat + bytes.toNat ∧ b'.inUse ≤ b.capacity) := by
  unfold reserve? at h
  split at h
  · rename_i hmax
    obtain rfl := Option.some.inj h
    refine ⟨rfl, ?_, fun hlt => ?_⟩
    · rw [UInt64.toNat_add]
      exact Nat.mod_modEq _ _
    · rw [isUnlimited, beq_iff_eq] at hmax
      rw [hmax] at hlt
      exact absurd hlt (by decide)
  · rename_i hmax
    dsimp only at h
    split at h
    · cases h
    · rename_i hle
      obtain rfl := Option.some.inj h
      have hle := UInt64.not_lt.1 hle
      have hlt : b.capacity < Word.max :=
        UInt64.lt_of_le_of_ne (Word.le_max _) (by simpa [isUnlimited] using hmax)
      have hexact := Word.toNat_saturatingAdd_of_le hlt hle
      exact ⟨rfl, by rw [hexact], fun _ => ⟨hexact, hle⟩⟩

/-- What returning bytes does to the counter. -/
theorem toNat_giveBack (b : Budget) (bytes : UInt64) :
    (b.giveBack bytes).inUse.toNat + bytes.toNat ≡ b.inUse.toNat [MOD UInt64.size] := by
  have hb := bytes.toNat_lt_size
  rw [giveBack, UInt64.toNat_sub]
  refine ((Nat.mod_modEq _ _).add_right _).trans ?_
  have : UInt64.size - bytes.toNat + b.inUse.toNat + bytes.toNat =
      b.inUse.toNat + UInt64.size := by omega
  rw [show 2 ^ 64 = UInt64.size from rfl, this]
  exact Nat.add_mod_right _ _

theorem toNat_giveBack_of_le {b : Budget} {bytes : UInt64} (h : bytes ≤ b.inUse) :
    (b.giveBack bytes).inUse.toNat + bytes.toNat = b.inUse.toNat :=
  Word.toNat_sub_add h

end Budget

namespace Account

/-- An account within its limit, which holds nothing once it is closed. -/
structure Sound (a : Account) : Prop where
  limited : a.limit < Word.max
  used_le : a.used ≤ a.limit
  empty : a.closed = true → a.used = 0

/-- An operation that moves as many bytes on the budget as on the account. -/
structure Moves (a : Account) (b : Budget) (a' : Account) (b' : Budget) : Prop where
  sound : a'.Sound
  capacity : b'.capacity = b.capacity
  wrapped : b'.inUse.toNat + a.used.toNat ≡ b.inUse.toNat + a'.used.toNat [MOD UInt64.size]
  exact : b.capacity < Word.max → a.used ≤ b.inUse → b.inUse ≤ b.capacity →
    b'.inUse.toNat + a.used.toNat = b.inUse.toNat + a'.used.toNat ∧ b'.inUse ≤ b.capacity

theorem sound_start (label : String) {limit : UInt64} (h : limit < Word.max) :
    (start label limit).Sound :=
  ⟨h, UInt64.zero_le, fun _ => rfl⟩

/-- An operation that changes nothing moves nothing. -/
theorem Moves.refl {a : Account} (h : a.Sound) (b : Budget) : Moves a b a b :=
  ⟨h, rfl, rfl, fun _ _ hb => ⟨rfl, hb⟩⟩

/-- An account that gives bytes back to the budget. -/
theorem Moves.giveBack {a a' : Account} (b : Budget) {bytes : UInt64} (h : a'.Sound)
    (hused : a'.used.toNat + bytes.toNat = a.used.toNat) : Moves a b a' (b.giveBack bytes) where
  sound := h
  capacity := rfl
  wrapped := by
    have := (b.toNat_giveBack bytes).add_right a'.used.toNat
    rw [← hused]
    convert this using 1
    omega
  exact := by
    intro _ hle hcap
    have hbytes : bytes ≤ b.inUse := by
      rw [UInt64.le_iff_toNat_le] at hle ⊢
      omega
    have hsum := Budget.toNat_giveBack_of_le hbytes
    refine ⟨by omega, ?_⟩
    rw [UInt64.le_iff_toNat_le] at hcap ⊢
    omega

/-- The ways in which a charge ends. -/
inductive Charged (a : Account) (b : Budget) (bytes : UInt64) :
    Except MemoryFault Unit × Account × Budget → Prop
  | closed (h : a.closed = true) : Charged a b bytes (.error (.accountClosed a.label), a, b)
  | overLimit (hopen : a.closed = false) (h : a.limit < Word.saturatingAdd a.used bytes) :
    Charged a b bytes (.error (.jobLimit a.label bytes a.limit a.used), a, b)
  /-- What was put on the account is taken off again. -/
  | noRoom (hopen : a.closed = false) (hle : Word.saturatingAdd a.used bytes ≤ a.limit)
    (h : b.reserve? bytes = none) :
    Charged a b bytes (.error (.nodeBudget a.label bytes),
      { a with used := Word.saturatingAdd a.used bytes - bytes }, b)
  | granted {b' : Budget} (hopen : a.closed = false)
    (hle : Word.saturatingAdd a.used bytes ≤ a.limit) (h : b.reserve? bytes = some b') :
    Charged a b bytes (.ok (), { a with used := Word.saturatingAdd a.used bytes }, b')

theorem charged (a : Account) (b : Budget) (bytes : UInt64) :
    Charged a b bytes (a.charge b bytes) := by
  unfold charge
  split
  · exact .closed ‹_›
  · rename_i hopen
    rw [Bool.not_eq_true] at hopen
    dsimp only
    split
    · exact .overLimit hopen ‹_›
    · rename_i hle
      have hle := UInt64.not_lt.1 hle
      split
      · exact .granted hopen hle ‹_›
      · exact .noRoom hopen hle ‹_›

theorem charge_moves {a : Account} (h : a.Sound) (b : Budget) (bytes : UInt64) :
    Moves a b (a.charge b bytes).2.1 (a.charge b bytes).2.2 := by
  have hcharged := a.charged b bytes
  generalize a.charge b bytes = outcome at hcharged ⊢
  cases hcharged with
  | closed _ => exact .refl h b
  | overLimit _ _ => exact .refl h b
  | noRoom _ hle _ =>
    have hnext := Word.toNat_saturatingAdd_of_le h.limited hle
    rw [Word.saturatingAdd_sub (hnext ▸ UInt64.toNat_lt_size _)]
    exact .refl h b
  | granted hopen hle hb =>
    have hnext := Word.toNat_saturatingAdd_of_le h.limited hle
    obtain ⟨hcap, hwrap, hexact⟩ := Budget.reserve?_eq_some hb
    refine ⟨⟨h.limited, hle, fun hclosed => absurd (hopen.symm.trans hclosed) (by decide)⟩, hcap,
      ?_, fun hlt _ _ => ?_⟩
    · have := hwrap.add_right a.used.toNat
      dsimp only
      rw [hnext]
      convert this using 1
      omega
    · obtain ⟨hsum, hle'⟩ := hexact hlt
      refine ⟨?_, hle'⟩
      dsimp only
      omega

theorem release_moves {a : Account} (h : a.Sound) (b : Budget) (bytes : UInt64) :
    Moves a b (a.release b bytes).1 (a.release b bytes).2 := by
  have hused := Word.toNat_sub_add (released_le a bytes)
  unfold release
  generalize (if bytes ≤ a.used then bytes else a.used) = released at hused ⊢
  refine .giveBack b ⟨h.limited, ?_, fun hclosed => ?_⟩ hused
  · have := h.used_le
    rw [UInt64.le_iff_toNat_le] at this ⊢
    dsimp only
    omega
  · have hzero : a.used.toNat = 0 := congrArg UInt64.toNat (h.empty hclosed)
    rw [← UInt64.toNat_inj, UInt64.toNat_zero]
    dsimp only
    omega

theorem close_moves {a : Account} (h : a.Sound) (b : Budget) :
    Moves a b (a.close b).1 (a.close b).2 := by
  unfold close
  split
  · exact .refl h b
  · exact .giveBack b ⟨h.limited, UInt64.zero_le, fun _ => rfl⟩ (Nat.zero_add _)

/-- A closed account is empty, whatever it held. -/
theorem used_close (a : Account) (h : a.Sound) (b : Budget) : (a.close b).1.used = 0 := by
  unfold close
  split
  · exact h.empty ‹_›
  · rfl

theorem charge_of_closed {a : Account} (h : a.closed = true) (b : Budget) (bytes : UInt64) :
    a.charge b bytes = (.error (.accountClosed a.label), a, b) := by
  rw [charge, if_pos h]

end Account

namespace Pool

/-- The bytes that all accounts hold together. -/
def held (p : Pool) : Nat := (p.accounts.values.map fun a => a.used.toNat).sum

/-- A pool whose accounts are sound and whose counter agrees with them. -/
structure Sound (p : Pool) : Prop where
  accounts : ∀ holder a, p.accounts.get? holder = some a → a.Sound
  wrapped : p.budget.inUse.toNat ≡ p.held [MOD UInt64.size]
  exact : p.budget.capacity < Word.max →
    p.budget.inUse.toNat = p.held ∧ p.budget.inUse ≤ p.budget.capacity

/-- What the account of a holder holds, and what the others hold. -/
theorem held_of_get? {p : Pool} {holder : String} {a : Account}
    (h : p.accounts.get? holder = some a) :
    p.held =
      a.used.toNat + ((p.accounts.erase holder).values.map fun a => a.used.toNat).sum := by
  rw [held, ((SortedMap.values_perm_of_get? h).map _).sum_eq, List.map_cons, List.sum_cons]

theorem held_insert (accounts : SortedMap String Account) (budget : Budget) (holder : String)
    (a : Account) :
    (Pool.mk budget (accounts.insert holder a)).held =
      a.used.toNat + ((accounts.erase holder).values.map fun a => a.used.toNat).sum := by
  rw [held, ((SortedMap.values_perm_insert accounts holder a).map _).sum_eq, List.map_cons,
    List.sum_cons]

/-- With a checked budget an account holds no more than is in use. -/
theorem Sound.used_le_inUse {p : Pool} (hp : p.Sound) (hcap : p.budget.capacity < Word.max)
    {holder : String} {a : Account} (h : p.accounts.get? holder = some a) :
    a.used ≤ p.budget.inUse := by
  have hheld := held_of_get? h
  have hexact := (hp.exact hcap).1
  rw [UInt64.le_iff_toNat_le]
  omega

theorem sound_ofCapacity (capacity : UInt64) : (ofCapacity capacity).Sound where
  accounts := by simp [ofCapacity]
  wrapped := rfl
  exact := fun _ => ⟨rfl, UInt64.zero_le⟩

/-- Storing the outcome of an operation on an account keeps a pool sound. -/
theorem Sound.store {p : Pool} (hp : p.Sound) {holder : String} {a : Account}
    (h : p.accounts.get? holder = some a) {state : Account × Budget}
    (hmoves : Account.Moves a p.budget state.1 state.2) : (p.store holder state).Sound := by
  have hheld := held_of_get? h
  have hheld' := held_insert p.accounts state.2 holder state.1
  refine ⟨fun holder' a' ha => ?_, ?_, fun hcap => ?_⟩
  · simp only [Pool.store, SortedMap.get?_insert] at ha
    split at ha
    · obtain rfl := Option.some.inj ha
      exact hmoves.sound
    · exact hp.accounts holder' a' ha
  · have hsum := hp.wrapped.add_right state.1.used.toNat
    have : state.2.inUse.toNat + a.used.toNat ≡
        (p.store holder state).held + a.used.toNat [MOD UInt64.size] := by
      refine hmoves.wrapped.trans (hsum.trans ?_)
      rw [Pool.store, hheld', hheld]
      exact congrArg (· % UInt64.size) (by omega)
    exact this.add_right_cancel'
  · have hcap : p.budget.capacity < Word.max := hmoves.capacity ▸ hcap
    obtain ⟨hinUse, hle⟩ := hp.exact hcap
    obtain ⟨hmoved, hle'⟩ := hmoves.exact hcap (hp.used_le_inUse hcap h) hle
    refine ⟨?_, hmoves.capacity ▸ hle'⟩
    show state.2.inUse.toNat = (p.store holder state).held
    rw [Pool.store, hheld']
    omega

theorem giveUp_of_get? {p : Pool} {holder : String} {a : Account}
    (h : p.accounts.get? holder = some a) :
    p.giveUp holder = { p with budget := (a.close p.budget).2 } := by
  rw [giveUp, h]

theorem giveUp_of_get?_eq_none {p : Pool} {holder : String}
    (h : p.accounts.get? holder = none) : p.giveUp holder = p := by
  rw [giveUp, h]

/-- Giving an account up returns all that it held. -/
theorem Sound.erase {p : Pool} (hp : p.Sound) (holder : String) :
    ({ p.giveUp holder with
      accounts := (p.giveUp holder).accounts.erase holder } : Pool).Sound := by
  cases h : p.accounts.get? holder with
  | none =>
    rw [giveUp_of_get?_eq_none h, SortedMap.erase_of_get?_eq_none h]
    exact hp
  | some a =>
    have hsound := hp.accounts holder a h
    have hstored := hp.store h (Account.close_moves hsound p.budget)
    -- the closed account is empty, so the pool holds as much without it
    have hheld : (p.store holder (a.close p.budget)).held =
        (Pool.mk (a.close p.budget).2 (p.accounts.erase holder)).held := by
      rw [Pool.store, held_insert, Account.used_close a hsound, UInt64.toNat_zero, Nat.zero_add]
      rfl
    rw [giveUp_of_get? h]
    refine ⟨fun holder' a' ha => ?_, ?_, fun hcap => ?_⟩
    · rw [SortedMap.get?_erase] at ha
      split at ha
      · cases ha
      · exact hp.accounts holder' a' ha
    · have := hstored.wrapped
      rw [hheld] at this
      exact this
    · have := hstored.exact hcap
      rw [hheld] at this
      exact this

/-- A new account, in place of an earlier one that is given up. -/
theorem Sound.insert_start {p : Pool} (hp : p.Sound) (holder label : String) {limit : UInt64}
    (hlimit : limit < Word.max) :
    ({ p.giveUp holder with
        accounts := (p.giveUp holder).accounts.insert holder (.start label limit) } :
      Pool).Sound := by
  have herased := hp.erase holder
  have haccounts : (p.giveUp holder).accounts = p.accounts := by
    unfold giveUp
    split <;> rfl
  have hheld := held_insert (p.giveUp holder).accounts (p.giveUp holder).budget holder
    (.start label limit)
  rw [Account.start, UInt64.toNat_zero, Nat.zero_add] at hheld
  refine ⟨fun holder' a ha => ?_, ?_, fun hcap => ?_⟩
  · rw [haccounts, SortedMap.get?_insert] at ha
    split at ha
    · obtain rfl := Option.some.inj ha
      exact Account.sound_start label hlimit
    · exact hp.accounts holder' a ha
  · have := herased.wrapped
    rw [held, ← hheld] at this
    exact this
  · have := herased.exact hcap
    rw [held, ← hheld] at this
    exact this

/-- A step whose limit, if it opens an account, is below the largest word. -/
def Step.Limited : Step → Prop
  | .start _ limit => limit < Word.max
  | .charge _ | .release _ | .close | .drop => True

/-- A step of a holder keeps a pool sound and leaves the capacity as it is. -/
theorem Sound.step? {p p' : Pool} {holder : String} {step : Step}
    {result : Except MemoryFault Unit} (hp : p.Sound) (hstep : step.Limited)
    (h : p.step? holder step = some (result, p')) :
    p'.Sound ∧ p'.budget.capacity = p.budget.capacity := by
  -- an account that is given up is closed first
  have hgiveUp : (p.giveUp holder).budget.capacity = p.budget.capacity := by
    cases ha : p.accounts.get? holder with
    | none => rw [giveUp_of_get?_eq_none ha]
    | some a =>
      rw [giveUp_of_get? ha]
      exact (Account.close_moves (hp.accounts holder a ha) p.budget).capacity
  cases step with
  | start label limit =>
    obtain ⟨-, rfl⟩ := Prod.mk.inj (Option.some.inj h)
    exact ⟨hp.insert_start holder label hstep, hgiveUp⟩
  | charge bytes =>
    obtain ⟨a, ha, h⟩ := Option.bind_eq_some_iff.1 h
    obtain ⟨-, rfl⟩ := Prod.mk.inj (Option.some.inj h)
    have hmoves := Account.charge_moves (hp.accounts holder a ha) p.budget bytes
    exact ⟨hp.store ha hmoves, hmoves.capacity⟩
  | release bytes =>
    obtain ⟨a, ha, h⟩ := Option.bind_eq_some_iff.1 h
    obtain ⟨-, rfl⟩ := Prod.mk.inj (Option.some.inj h)
    have hmoves := Account.release_moves (hp.accounts holder a ha) p.budget bytes
    exact ⟨hp.store ha hmoves, hmoves.capacity⟩
  | close =>
    obtain ⟨a, ha, h⟩ := Option.bind_eq_some_iff.1 h
    obtain ⟨-, rfl⟩ := Prod.mk.inj (Option.some.inj h)
    have hmoves := Account.close_moves (hp.accounts holder a ha) p.budget
    exact ⟨hp.store ha hmoves, hmoves.capacity⟩
  | drop =>
    obtain ⟨a, ha, h⟩ := Option.bind_eq_some_iff.1 h
    obtain ⟨-, rfl⟩ := Prod.mk.inj (Option.some.inj h)
    exact ⟨hp.erase holder, hgiveUp⟩

/-! ### Scripts -/

/-- Takes the steps of a script, each of some holder.  A step that needs an account which is not
there does nothing. -/
def run (p : Pool) (script : List (String × Step)) : Pool :=
  script.foldl (fun p s => ((p.step? s.1 s.2).map (·.2)).getD p) p

theorem run_cons (p : Pool) (s : String × Step) (script : List (String × Step)) :
    p.run (s :: script) = (((p.step? s.1 s.2).map (·.2)).getD p).run script :=
  rfl

/-- Whatever the holders do, a pool stays sound. -/
theorem Sound.run {p : Pool} (hp : p.Sound) {script : List (String × Step)}
    (hscript : ∀ s ∈ script, s.2.Limited) :
    (p.run script).Sound ∧ (p.run script).budget.capacity = p.budget.capacity := by
  induction script generalizing p with
  | nil => exact ⟨hp, rfl⟩
  | cons s script ih =>
    have hrest := fun t ht => hscript t (List.mem_cons_of_mem _ ht)
    rw [run_cons]
    cases h : p.step? s.1 s.2 with
    | none => exact ih hp hrest
    | some outcome =>
      obtain ⟨hsound, hcap⟩ := hp.step? (hscript s List.mem_cons_self) h
      obtain ⟨hsound', hcap'⟩ := ih hsound hrest
      exact ⟨hsound', hcap'.trans hcap⟩

/-- Memory is conserved.  After any script the counter of the budget agrees with the sum of the
accounts, no account is over its limit, and a closed account is empty and refuses every charge.
If the budget is checked, the counter is exact and within the capacity, and no operation on an
account subtracts below zero: the checked operations give the results of the plain ones. -/
theorem run_conserves (capacity : UInt64) (script : List (String × Step))
    (hlimits : ∀ holder label limit, (holder, .start label limit) ∈ script → limit < Word.max) :
    let p := (ofCapacity capacity).run script
    p.budget.inUse.toNat ≡ p.held [MOD UInt64.size] ∧
    (∀ holder a, p.accounts.get? holder = some a →
      a.used ≤ a.limit ∧
      (a.closed = true → a.used = 0 ∧
        ∀ bytes, a.charge p.budget bytes = (.error (.accountClosed a.label), a, p.budget))) ∧
    (capacity < Word.max →
      p.budget.inUse.toNat = p.held ∧ p.budget.inUse ≤ capacity ∧
      ∀ holder a, p.accounts.get? holder = some a →
        (∀ bytes, a.charge? p.budget bytes = some (a.charge p.budget bytes)) ∧
        (∀ bytes, a.release? p.budget bytes = some (a.release p.budget bytes)) ∧
        a.close? p.budget = some (a.close p.budget)) := by
  have hscript : ∀ s ∈ script, s.2.Limited := by
    rintro ⟨holder, step⟩ hs
    cases step with
    | start label limit => exact hlimits holder label limit hs
    | charge _ | release _ | close | drop => exact trivial
  intro p
  obtain ⟨hp, hcap⟩ : p.Sound ∧ p.budget.capacity = capacity :=
    (sound_ofCapacity capacity).run hscript
  refine ⟨hp.wrapped, fun holder a ha => ?_, fun hlt => ?_⟩
  · have ha := hp.accounts holder a ha
    exact ⟨ha.used_le, fun hclosed =>
      ⟨ha.empty hclosed, Account.charge_of_closed hclosed p.budget⟩⟩
  · have hchecked : p.budget.capacity < Word.max := hcap ▸ hlt
    obtain ⟨hexact, hle⟩ := hp.exact hchecked
    refine ⟨hexact, hcap ▸ hle, fun holder a ha => ?_⟩
    have hheld := hp.used_le_inUse hchecked ha
    exact ⟨Account.charge?_eq a p.budget, Account.release?_eq hheld, Account.close?_eq hheld⟩

/-- Two jobs of which one gives back more than it holds, is closed twice and charged again, while
the other is replaced. -/
theorem run_conserves_overRelease :
    let script := [("a", Step.start "job-1" 80), ("b", .start "job-2" 50), ("a", .charge 70),
      ("b", .charge 40), ("b", .charge 20), ("a", .release 500), ("a", .close), ("a", .close),
      ("a", .charge 1), ("b", .start "job-3" 9), ("b", .charge 9)]
    let p := (ofCapacity 100).run script
    (∀ holder label limit, (holder, Step.start label limit) ∈ script → limit < Word.max) ∧
    p.budget.inUse.toNat = p.held ∧ p.budget.inUse ≤ 100 := by
  intro script p
  have hlimits : ∀ holder label limit,
      (holder, Step.start label limit) ∈ script → limit < Word.max := by
    intro holder label limit h
    simp only [script, List.mem_cons, Prod.mk.injEq, Step.start.injEq, reduceCtorEq, and_false,
      List.not_mem_nil, or_false, false_or] at h
    rcases h with ⟨-, -, rfl⟩ | ⟨-, -, rfl⟩ | ⟨-, -, rfl⟩ <;> decide
  obtain ⟨hexact, hle, -⟩ := (run_conserves 100 script hlimits).2.2 (by decide)
  exact ⟨hlimits, hexact, hle⟩

example :
    ((ofCapacity 100).run [("a", .start "job-1" 80), ("a", .charge 70), ("a", .release 500),
      ("b", .start "job-2" 50), ("b", .charge 40), ("b", .start "job-3" 9)]).budget.inUse = 0 := by
  decide

end Pool

end ShardJoin
