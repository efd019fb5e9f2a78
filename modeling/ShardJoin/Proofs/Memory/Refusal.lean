/-
Charges that are refused.

A charge is put on the account first, with an addition that stops at the
largest word, and taken off again if the budget refuses it.  Taking it off is
the way back only if the addition was exact, so an account without a limit of
its own loses bytes when the sum is no word (`Account.Overflows`).

* `Account.charge_eq_error` — what a refused charge leaves behind;
* `Pool.Covered.run` — whatever the limits, the accounts of a checked budget
  never hold more than is in use;
* `Pool.run_charge_refused` — a refused charge changes nothing but an account
  that overflows, and a charge that overflows an account is always refused.
-/
import ShardJoin.Proofs.Memory.Conservation

namespace ShardJoin

/-- A sum that is no word is the largest word. -/
theorem Word.saturatingAdd_eq_max {a b : UInt64} (h : UInt64.size ≤ a.toNat + b.toNat) :
    saturatingAdd a b = max := if_neg (by omega)

theorem Budget.giveBack_inUse_le {b : Budget} {bytes : UInt64} (h : bytes ≤ b.inUse) :
    (b.giveBack bytes).inUse ≤ b.inUse := by
  have hsum := toNat_giveBack_of_le h
  rw [UInt64.le_iff_toNat_le]
  omega

namespace Account

/-! ### What a refused charge leaves behind -/

/-- Whether the account is open and without a limit of its own, and further bytes do not fit into
a word together with those that it holds. -/
def Overflows (a : Account) (bytes : UInt64) : Prop :=
  a.closed = false ∧ a.limit = Word.max ∧ UInt64.size ≤ a.used.toNat + bytes.toNat

instance (a : Account) (bytes : UInt64) : Decidable (a.Overflows bytes) :=
  inferInstanceAs (Decidable (_ ∧ _))

/-- The bytes on an account after a charge was refused. -/
def usedAfterRefusal (a : Account) (bytes : UInt64) : UInt64 :=
  if a.Overflows bytes then Word.max - bytes else a.used

/-- An account that overflows holds less than before. -/
theorem usedAfterRefusal_lt {a : Account} {bytes : UInt64} (h : a.Overflows bytes) :
    a.usedAfterRefusal bytes < a.used := by
  have hmax : Word.max.toNat = UInt64.size - 1 := rfl
  have hbytes := bytes.toNat_lt_size
  rw [usedAfterRefusal, if_pos h, UInt64.lt_iff_toNat_lt,
    UInt64.toNat_sub_of_le _ _ (Word.le_max bytes)]
  obtain ⟨-, -, hsum⟩ := h
  omega

/-- Nothing is lost exactly if the account does not overflow. -/
theorem usedAfterRefusal_eq_used {a : Account} {bytes : UInt64} :
    a.usedAfterRefusal bytes = a.used ↔ ¬a.Overflows bytes :=
  ⟨fun heq h => UInt64.lt_irrefl _ (heq ▸ usedAfterRefusal_lt h), fun h => if_neg h⟩

/-- A refused charge leaves the budget, and the account up to what it loses. -/
theorem charge_eq_error {a a' : Account} {b b' : Budget} {bytes : UInt64} {fault : MemoryFault}
    (h : a.charge b bytes = (.error fault, a', b')) :
    b' = b ∧ a' = { a with used := a.usedAfterRefusal bytes } := by
  have hcharged := a.charged b bytes
  rw [h] at hcharged
  cases hcharged with
  | closed hclosed =>
    have hfits : ¬a.Overflows bytes := fun ho => absurd (ho.1.symm.trans hclosed) (by decide)
    rw [usedAfterRefusal_eq_used.2 hfits]
    exact ⟨rfl, rfl⟩
  | overLimit _ hlimit =>
    have hfits : ¬a.Overflows bytes := by
      rintro ⟨-, hmax, -⟩
      rw [hmax] at hlimit
      exact UInt64.not_le.2 hlimit (Word.le_max _)
    rw [usedAfterRefusal_eq_used.2 hfits]
    exact ⟨rfl, rfl⟩
  | noRoom hopen hle _ =>
    have hback : Word.saturatingAdd a.used bytes - bytes = a.usedAfterRefusal bytes := by
      by_cases ho : a.Overflows bytes
      · rw [usedAfterRefusal, if_pos ho, Word.saturatingAdd_eq_max ho.2.2]
      · rw [usedAfterRefusal_eq_used.2 ho]
        refine Word.saturatingAdd_sub ?_
        by_cases hmax : a.limit = Word.max
        · by_contra hsum
          exact ho ⟨hopen, hmax, by omega⟩
        · -- below a limit of its own the sum is exact
          have hlt := UInt64.lt_of_le_of_ne (Word.le_max a.limit) hmax
          rw [← Word.toNat_saturatingAdd_of_le hlt hle]
          exact UInt64.toNat_lt_size _
    exact ⟨rfl, by rw [hback]⟩

/-- A checked budget that covers an account refuses what overflows the account. -/
theorem charge_of_overflows {a : Account} {b : Budget} {bytes : UInt64} (h : a.Overflows bytes)
    (hcap : b.capacity < Word.max) (hused : a.used ≤ b.inUse) :
    a.charge b bytes =
      (.error (.nodeBudget a.label bytes), { a with used := a.usedAfterRefusal bytes }, b) := by
  have hlost : a.usedAfterRefusal bytes = Word.max - bytes := if_pos h
  obtain ⟨hopen, hmax, hsum⟩ := h
  have hnext := Word.saturatingAdd_eq_max hsum
  have hroom : ¬Word.max < Word.max := UInt64.lt_irrefl _
  have hreserve : b.reserve? bytes = none := by
    have hchecked : b.isUnlimited = false := by
      rw [Budget.isUnlimited, beq_eq_false_iff_ne]
      exact UInt64.ne_of_lt hcap
    rw [UInt64.le_iff_toNat_le] at hused
    rw [Budget.reserve?, hchecked, Word.saturatingAdd_eq_max (by omega)]
    exact if_pos hcap
  rw [charge, hopen]
  simp only [Bool.false_eq_true, if_false, hmax, hroom, hreserve, hnext, hlost]

/-! ### Accounts without a limit of their own -/

/-- An operation that puts no more bytes on the account than on the budget, and takes off the
budget no more than off the account. -/
structure Backs (a : Account) (b : Budget) (a' : Account) (b' : Budget) : Prop where
  capacity : b'.capacity = b.capacity
  covered : b.capacity < Word.max → a.used ≤ b.inUse → b.inUse ≤ b.capacity →
    b.inUse.toNat + a'.used.toNat ≤ b'.inUse.toNat + a.used.toNat ∧ b'.inUse ≤ b.capacity

theorem Backs.refl (a : Account) (b : Budget) : Backs a b a b :=
  ⟨rfl, fun _ _ hb => ⟨Nat.le_refl _, hb⟩⟩

/-- An account that gives bytes back to the budget. -/
theorem Backs.giveBack {a a' : Account} (b : Budget) {bytes : UInt64}
    (hused : a'.used.toNat + bytes.toNat = a.used.toNat) : Backs a b a' (b.giveBack bytes) where
  capacity := rfl
  covered := by
    intro _ hle hcap
    have hbytes : bytes ≤ b.inUse := by
      rw [UInt64.le_iff_toNat_le] at hle ⊢
      omega
    have hsum := Budget.toNat_giveBack_of_le hbytes
    exact ⟨by omega, UInt64.le_trans (Budget.giveBack_inUse_le hbytes) hcap⟩

theorem charge_backs (a : Account) (b : Budget) (bytes : UInt64) :
    Backs a b (a.charge b bytes).2.1 (a.charge b bytes).2.2 := by
  rcases hresult : a.charge b bytes with ⟨_ | _, a', b'⟩
  · -- a refused charge can only lower the account
    obtain ⟨rfl, rfl⟩ := charge_eq_error hresult
    have hle : (a.usedAfterRefusal bytes).toNat ≤ a.used.toNat := by
      by_cases ho : a.Overflows bytes
      · exact Nat.le_of_lt (UInt64.lt_iff_toNat_lt.1 (usedAfterRefusal_lt ho))
      · exact Nat.le_of_eq (congrArg UInt64.toNat (usedAfterRefusal_eq_used.2 ho))
    exact ⟨rfl, fun _ _ hb => ⟨Nat.add_le_add_left hle _, hb⟩⟩
  · have hcharged := a.charged b bytes
    rw [hresult] at hcharged
    cases hcharged with
    | granted _ _ hb =>
      obtain ⟨hcap, -, hexact⟩ := Budget.reserve?_eq_some hb
      refine ⟨hcap, fun hlt _ _ => ?_⟩
      obtain ⟨hsum, hle⟩ := hexact hlt
      have hnext := Word.toNat_saturatingAdd a.used bytes
      refine ⟨?_, hle⟩
      dsimp only
      omega

theorem release_backs (a : Account) (b : Budget) (bytes : UInt64) :
    Backs a b (a.release b bytes).1 (a.release b bytes).2 :=
  .giveBack b (Word.toNat_sub_add (released_le a bytes))

theorem close_backs (a : Account) (b : Budget) : Backs a b (a.close b).1 (a.close b).2 := by
  unfold close
  split
  · exact .refl a b
  · exact .giveBack b (Nat.zero_add _)

end Account

namespace Pool

/-- A pool over a budget of some capacity, of which no more is held than is in use. -/
structure Covered (capacity : UInt64) (p : Pool) : Prop where
  capacity_eq : p.budget.capacity = capacity
  held_le : p.held ≤ p.budget.inUse.toNat
  inUse_le : p.budget.inUse ≤ capacity

variable {capacity : UInt64}

theorem covered_ofCapacity (capacity : UInt64) : (ofCapacity capacity).Covered capacity :=
  ⟨rfl, Nat.le_refl _, UInt64.zero_le⟩

theorem Covered.used_le_inUse {p : Pool} (hp : p.Covered capacity) {holder : String} {a : Account}
    (h : p.accounts.get? holder = some a) : a.used ≤ p.budget.inUse := by
  have hheld := held_of_get? h
  have hle := hp.held_le
  rw [UInt64.le_iff_toNat_le]
  omega

/-- Storing the outcome of an operation on an account keeps a pool covered. -/
theorem Covered.store (hlt : capacity < Word.max) {p : Pool} (hp : p.Covered capacity)
    {holder : String} {a : Account} (h : p.accounts.get? holder = some a) {state : Account × Budget}
    (hbacks : Account.Backs a p.budget state.1 state.2) :
    (p.store holder state).Covered capacity := by
  obtain ⟨hcap, hle, hin⟩ := hp
  have hheld := held_of_get? h
  have hheld' := held_insert p.accounts state.2 holder state.1
  have hused : a.used ≤ p.budget.inUse := Covered.used_le_inUse ⟨hcap, hle, hin⟩ h
  obtain ⟨hmoved, hin'⟩ := hbacks.covered (hcap ▸ hlt) hused (hcap ▸ hin)
  refine ⟨hbacks.capacity.trans hcap, ?_, hcap ▸ hin'⟩
  show (p.store holder state).held ≤ state.2.inUse.toNat
  rw [Pool.store, hheld']
  omega

/-- Giving an account up keeps a pool covered. -/
theorem Covered.erase (hlt : capacity < Word.max) {p : Pool} (hp : p.Covered capacity)
    (holder : String) :
    ({ p.giveUp holder with
      accounts := (p.giveUp holder).accounts.erase holder } : Pool).Covered capacity := by
  cases h : p.accounts.get? holder with
  | none =>
    rw [giveUp_of_get?_eq_none h, SortedMap.erase_of_get?_eq_none h]
    exact hp
  | some a =>
    -- the pool holds no more without the closed account than with it
    have hstored := hp.store hlt h (Account.close_backs a p.budget)
    have hheld := hstored.held_le
    rw [Pool.store, held_insert] at hheld
    rw [giveUp_of_get? h]
    exact ⟨hstored.capacity_eq, Nat.le_trans (Nat.le_add_left _ _) hheld, hstored.inUse_le⟩

/-- A new account, in place of an earlier one that is given up. -/
theorem Covered.insert_start (hlt : capacity < Word.max) {p : Pool} (hp : p.Covered capacity)
    (holder label : String) (limit : UInt64) :
    ({ p.giveUp holder with
        accounts := (p.giveUp holder).accounts.insert holder (.start label limit) } :
      Pool).Covered capacity := by
  obtain ⟨hcap, hheld, hin⟩ := hp.erase hlt holder
  refine ⟨hcap, ?_, hin⟩
  rw [held_insert, Account.start, UInt64.toNat_zero, Nat.zero_add]
  exact hheld

/-- Whatever the limits, a step of a holder keeps a pool over a checked budget covered. -/
theorem Covered.step? (hlt : capacity < Word.max) {p p' : Pool} {holder : String} {step : Step}
    {result : Except MemoryFault Unit} (hp : p.Covered capacity)
    (h : p.step? holder step = some (result, p')) : p'.Covered capacity := by
  cases step with
  | start label limit =>
    obtain ⟨-, rfl⟩ := Prod.mk.inj (Option.some.inj h)
    exact hp.insert_start hlt holder label limit
  | charge bytes =>
    obtain ⟨a, ha, h⟩ := Option.bind_eq_some_iff.1 h
    obtain ⟨-, rfl⟩ := Prod.mk.inj (Option.some.inj h)
    exact hp.store hlt ha (Account.charge_backs a p.budget bytes)
  | release bytes =>
    obtain ⟨a, ha, h⟩ := Option.bind_eq_some_iff.1 h
    obtain ⟨-, rfl⟩ := Prod.mk.inj (Option.some.inj h)
    exact hp.store hlt ha (Account.release_backs a p.budget bytes)
  | close =>
    obtain ⟨a, ha, h⟩ := Option.bind_eq_some_iff.1 h
    obtain ⟨-, rfl⟩ := Prod.mk.inj (Option.some.inj h)
    exact hp.store hlt ha (Account.close_backs a p.budget)
  | drop =>
    obtain ⟨a, ha, h⟩ := Option.bind_eq_some_iff.1 h
    obtain ⟨-, rfl⟩ := Prod.mk.inj (Option.some.inj h)
    exact hp.erase hlt holder

/-- Whatever the holders do, a pool over a checked budget stays covered. -/
theorem Covered.run (hlt : capacity < Word.max) {p : Pool} (hp : p.Covered capacity)
    (script : List (String × Step)) : (p.run script).Covered capacity := by
  induction script generalizing p with
  | nil => exact hp
  | cons s script ih =>
    rw [run_cons]
    cases h : p.step? s.1 s.2 with
    | none => exact ih hp
    | some outcome => exact ih (hp.step? hlt h)

/-! ### Refused charges of a run -/

/-- What a charge does for a holder with an account. -/
theorem step?_charge {p : Pool} {holder : String} {a : Account}
    (h : p.accounts.get? holder = some a) (bytes : UInt64) :
    p.step? holder (.charge bytes) =
      some ((a.charge p.budget bytes).1, p.store holder (a.charge p.budget bytes).2) := by
  rw [step?, h]
  rfl

/-- A refused charge changes neither the budget nor an account of another holder, and it leaves
the account that was to be charged unless that overflows.  A checked budget always refuses what
overflows an account, and the account then holds less than before, although nothing was given
back. -/
theorem run_charge_refused (capacity : UInt64) (script : List (String × Step)) (holder : String)
    (bytes : UInt64) :
    let p := (ofCapacity capacity).run script
    (∀ fault p', p.step? holder (.charge bytes) = some (.error fault, p') →
      p'.budget = p.budget ∧
      (∀ other, other ≠ holder → p'.accounts.get? other = p.accounts.get? other) ∧
      ∃ a, p.accounts.get? holder = some a ∧
        p'.accounts.get? holder = some { a with used := a.usedAfterRefusal bytes } ∧
        (a.usedAfterRefusal bytes = a.used ↔ ¬a.Overflows bytes)) ∧
    ∀ a, p.accounts.get? holder = some a → a.Overflows bytes → capacity < Word.max →
      a.usedAfterRefusal bytes < a.used ∧
      ∃ p', p.step? holder (.charge bytes) = some (.error (.nodeBudget a.label bytes), p') := by
  intro p
  constructor
  · intro fault p' h
    obtain ⟨a, ha, h⟩ := Option.bind_eq_some_iff.1 h
    rcases hresult : a.charge p.budget bytes with ⟨result, a', b'⟩
    rw [hresult] at h
    obtain ⟨rfl, rfl⟩ := Prod.mk.inj (Option.some.inj h)
    obtain ⟨rfl, rfl⟩ := Account.charge_eq_error hresult
    refine ⟨rfl, fun other hother => ?_, a, ha, ?_, Account.usedAfterRefusal_eq_used⟩
    · rw [Pool.store, SortedMap.get?_insert, if_neg hother]
    · rw [Pool.store, SortedMap.get?_insert, if_pos rfl]
  · intro a ha hover hlt
    have hp := (covered_ofCapacity capacity).run hlt script
    have hcap : p.budget.capacity < Word.max := by
      rw [hp.capacity_eq]
      exact hlt
    have hcharge := Account.charge_of_overflows hover hcap (hp.used_le_inUse ha)
    exact ⟨Account.usedAfterRefusal_lt hover, _, by rw [step?_charge ha, hcharge]⟩

/-- A job without a limit of its own, on a node with a hundred bytes. -/
def unlimitedJob : List (String × Step) := [("a", .start "job-1" Word.max), ("a", .charge 10)]

/-- A refused charge that does not overflow the account leaves it, and one that does is refused as
well. -/
theorem run_charge_refused_unlimitedJob :
    let p := (ofCapacity 100).run unlimitedJob
    (∃ fault p', p.step? "a" (.charge 95) = some (.error fault, p') ∧ p'.budget = p.budget ∧
      p'.accounts.get? "a" = p.accounts.get? "a") ∧
    (∃ a, p.accounts.get? "a" = some a ∧ a.Overflows Word.max) ∧
    ∃ p', p.step? "a" (.charge Word.max) = some (.error (.nodeBudget "job-1" Word.max), p') := by
  intro p
  have ha : p.accounts.get? "a" = some ⟨"job-1", Word.max, 10, false⟩ := by decide
  have hover : Account.Overflows ⟨"job-1", Word.max, 10, false⟩ Word.max := by decide
  refine ⟨⟨_, _, rfl, ?_⟩, ⟨_, ha, hover⟩, ?_⟩
  · obtain ⟨hbudget, -, a, ha', hleft, hiff⟩ :=
      (run_charge_refused 100 unlimitedJob "a" 95).1 _ _ rfl
    obtain rfl := Option.some.inj (ha.symm.trans ha')
    exact ⟨hbudget, hleft.trans (by rw [hiff.2 (by decide)]; exact ha.symm)⟩
  · exact ((run_charge_refused 100 unlimitedJob "a" Word.max).2 _ ha hover (by decide)).2

/-- The job holds ten bytes; a refused charge of the largest word takes them off its account, but
not off the budget. -/
theorem lost_unlimitedJob : ∃ p',
    ((ofCapacity 100).run unlimitedJob).step? "a" (.charge Word.max) =
      some (.error (.nodeBudget "job-1" Word.max), p') ∧
    ((ofCapacity 100).run unlimitedJob).accounts.get? "a" =
      some ⟨"job-1", Word.max, 10, false⟩ ∧
    p'.accounts.get? "a" = some ⟨"job-1", Word.max, 0, false⟩ ∧ p'.budget.inUse = 10 :=
  ⟨_, rfl, by decide, by decide, by decide⟩

end Pool

end ShardJoin
