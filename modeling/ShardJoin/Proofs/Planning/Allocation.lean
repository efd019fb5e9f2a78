/-
The ids that a session gives out.

A session answers requests for a stage id and for the searches of a table's
shards, in any order.  It counts the ids of each kind, and enters every search
with its shard and its collect stage in the map of searches.  As the counter
is above all ids of the map, an entry is never stored in place of another one:
the entries of the map are the grants, one after the other.

* `Routing.enumerates_shards` — the order in which shards are listed;
* `Session.granted_grantAll` — the ids are consecutive, and the map of searches is the history of
  grants;
* `Session.keepsShardsApart` — no id is given out twice, every search stays
  where it was entered, and the searches of different stages are disjoint.
-/
import Mathlib.Data.List.Forall2
import Mathlib.Data.List.Nodup
import ShardJoin.Planning.Session
import ShardJoin.Proofs.SortedMap

namespace ShardJoin

/-! ### Shards in order -/

namespace SortedMap

variable {κ ν β : Type} [Ord κ] [Std.LawfulEqOrd κ]

/-- Of what the entries of a map are listed with, a test that only the entries of one key can
pass leaves what the value of this key is listed with. -/
theorem filter_flatMap_entries (m : SortedMap κ ν) {f : κ × ν → List β} {p : β → Bool} {k : κ}
    (h : ∀ e : κ × ν, e.1 ≠ k → (f e).filter p = []) :
    (m.entries.flatMap f).filter p = ((m.get? k).map fun v => (f (k, v)).filter p).getD [] := by
  obtain ⟨l, sorted⟩ := m
  simp only [get?]
  induction l with
  | nil => rfl
  | cons e l ih =>
    obtain ⟨hfirst, hrest⟩ := List.pairwise_cons.1 sorted
    rw [List.flatMap_cons, List.filter_append, lookup]
    by_cases hk : e.1 = k
    · have hnone : (l.flatMap f).filter p = [] := by
        rw [List.filter_flatMap, List.flatMap_eq_nil_iff]
        intro e' he'
        refine h e' fun hk' => ?_
        have hlt := hfirst e' he'
        rw [hk, hk', Std.ReflOrd.compare_self] at hlt
        cases hlt
      obtain ⟨k', v⟩ := e
      obtain rfl : k' = k := hk
      simp [hnone]
    · have hne : compare k e.1 ≠ .eq := fun heq => hk (Std.LawfulEqCmp.eq_of_compare heq).symm
      rw [h e hk, List.nil_append, ih hrest, if_neg hne]

end SortedMap

namespace Routing

/-- The shards of an index on a node, as they are listed there. -/
def shardsAt (r : Routing) (node : NodeId) (index : String) : List UInt32 :=
  ((r.locations.get? node).bind (·.get? index)).getD []

/-- A list of all shards of a routing by node, then by index, then as they are listed. -/
structure Enumerates (r : Routing) (l : List (NodeId × String × UInt32)) : Prop where
  ordered : l.Pairwise fun a b => compare a.1 b.1 = .lt ∨
    a.1 = b.1 ∧ (compare a.2.1 b.2.1 = .lt ∨ a.2.1 = b.2.1)
  complete : ∀ node index,
    (l.filter fun x => x.1 = node ∧ x.2.1 = index).map (·.2.2) = r.shardsAt node index

theorem enumerates_shards (r : Routing) : r.Enumerates r.shards where
  ordered := by
    unfold shards
    refine List.pairwise_flatMap.2 ⟨fun e _ => ?_, r.locations.sorted.imp fun {a b} hlt => ?_⟩
    · refine List.pairwise_flatMap.2 ⟨fun e' _ => ?_, e.2.sorted.imp fun {a b} hlt => ?_⟩
      · exact List.pairwise_map.2 (List.pairwise_of_forall fun _ _ => .inr ⟨rfl, .inr rfl⟩)
      · intro x hx y hy
        obtain ⟨_, -, rfl⟩ := List.mem_map.1 hx
        obtain ⟨_, -, rfl⟩ := List.mem_map.1 hy
        exact .inr ⟨rfl, .inl hlt⟩
    · intro x hx y hy
      obtain ⟨_, -, hx⟩ := List.mem_flatMap.1 hx
      obtain ⟨_, -, rfl⟩ := List.mem_map.1 hx
      obtain ⟨_, -, hy⟩ := List.mem_flatMap.1 hy
      obtain ⟨_, -, rfl⟩ := List.mem_map.1 hy
      exact .inl hlt
  complete node index := by
    have hindex : ∀ indices : SortedMap String (List UInt32),
        ((indices.entries.flatMap fun e => e.2.map fun shard => (node, e.1, shard)).filter
          fun x => x.1 = node ∧ x.2.1 = index).map (·.2.2) = (indices.get? index).getD [] := by
      intro indices
      rw [SortedMap.filter_flatMap_entries indices (k := index) fun e he => by
        simp [List.filter_map, he]]
      cases indices.get? index <;> simp [List.filter_map, Function.comp_def]
    unfold shards shardsAt
    rw [SortedMap.filter_flatMap_entries r.locations (k := node) fun e he => by
      simp [List.filter_flatMap, List.filter_map, he]]
    cases r.locations.get? node with
    | none => rfl
    | some indices => exact hindex indices

end Routing

/-! ### Requests and grants -/

/-- What a session is asked to give out: a stage id, or an id for the search of every shard of a
routing, opened by a collect stage. -/
inductive Request where
  | stage
  | searches (routing : Routing) (collect : StageId)

/-- A request with the ids that it was answered with. -/
inductive Grant where
  | stage (id : StageId)
  | searches (routing : Routing) (collect : StageId) (ids : List SubContextId)

namespace Grant

def request : Grant → Request
  | .stage _ => .stage
  | .searches routing collect _ => .searches routing collect

def stageIds : Grant → List StageId
  | .stage id => [id]
  | .searches .. => []

def searchIds : Grant → List SubContextId
  | .stage _ => []
  | .searches _ _ ids => ids

/-- The searches of a grant, each with its shard and its collect stage. -/
def located : Grant → List (SubContextId × ShardLocation)
  | .stage _ => []
  | .searches routing collect ids =>
    ids.zip (routing.shards.map fun (node, index, shard) => ⟨node, index, shard, collect⟩)

/-- There is one id per shard. -/
def IsFull : Grant → Prop
  | .stage _ => True
  | .searches routing _ ids => ids.length = routing.shards.length

end Grant

/-- Consecutive ids from a first one on. -/
def idsFrom (first : Int) (n : Nat) : List Int := (List.range n).map fun k : Nat => first + k

theorem idsFrom_add (first : Int) (m n : Nat) :
    idsFrom first (m + n) = idsFrom first m ++ idsFrom (first + m) n := by
  simp [idsFrom, List.range_add, Function.comp_def, Int.add_assoc]

theorem length_idsFrom (first : Int) (n : Nat) : (idsFrom first n).length = n := by
  simp [idsFrom]

theorem nodup_idsFrom (first : Int) (n : Nat) : (idsFrom first n).Nodup :=
  List.Nodup.map (fun _ _ h => Int.ofNat.inj (Int.add_left_cancel h)) List.nodup_range

theorem mem_idsFrom {first id : Int} {n : Nat} :
    id ∈ idsFrom first n ↔ first ≤ id ∧ id < first + n := by
  simp only [idsFrom, List.mem_map, List.mem_range]
  constructor
  · rintro ⟨k, hk, rfl⟩
    omega
  · rintro ⟨hle, hlt⟩
    exact ⟨(id - first).toNat, by omega, by omega⟩

/-- Ids that are consecutive from zero on are distinct and below their number. -/
theorem nodup_and_bounded {ids : List Int} {n : Nat} (h : ids = idsFrom 0 n) :
    ids.Nodup ∧ ∀ id ∈ ids, 0 ≤ id ∧ id < ids.length := by
  rw [h, length_idsFrom]
  refine ⟨nodup_idsFrom 0 n, fun id hid => ?_⟩
  obtain ⟨hle, hlt⟩ := mem_idsFrom.1 hid
  exact ⟨hle, by omega⟩

namespace Session

/-- Answers a request. -/
def grant (σ : Session) : Request → Grant × Session
  | .stage => (.stage σ.takeStage.1, σ.takeStage.2)
  | .searches routing collect =>
    (.searches routing collect (σ.allocate routing collect).1, (σ.allocate routing collect).2)

/-- Answers requests one after another. -/
def grantAll (σ : Session) : List Request → List Grant × Session
  | [] => ([], σ)
  | request :: rest =>
    ((σ.grant request).1 :: ((σ.grant request).2.grantAll rest).1,
      ((σ.grant request).2.grantAll rest).2)

theorem grantAll_append (σ : Session) (requests more : List Request) :
    σ.grantAll (requests ++ more) =
      ((σ.grantAll requests).1 ++ ((σ.grantAll requests).2.grantAll more).1,
        ((σ.grantAll requests).2.grantAll more).2) := by
  induction requests generalizing σ with
  | nil => rfl
  | cons request rest ih =>
    rw [List.cons_append, grantAll, ih]
    rfl

/-- The searches of a session have been counted. -/
def IsNumbered (σ : Session) : Prop := ∀ e ∈ σ.subContexts.entries, e.1 < σ.nextSubContext

/-- What was granted between two states of a session: the ids are consecutive, and the searches
have been entered after all others. -/
structure Granted (σ : Session) (stages : List StageId)
    (searches : List (SubContextId × ShardLocation)) (τ : Session) : Prop where
  stageIds : stages = idsFrom σ.nextStage stages.length
  nextStage : τ.nextStage = σ.nextStage + stages.length
  searchIds : searches.map (·.1) = idsFrom σ.nextSubContext searches.length
  nextSubContext : τ.nextSubContext = σ.nextSubContext + searches.length
  entries : τ.subContexts.entries = σ.subContexts.entries ++ searches

namespace Granted

theorem refl (σ : Session) : Granted σ [] [] σ :=
  ⟨rfl, (Int.add_zero _).symm, rfl, (Int.add_zero _).symm, (List.append_nil _).symm⟩

theorem trans {σ τ υ : Session} {stages stages' : List StageId}
    {searches searches' : List (SubContextId × ShardLocation)} (h : Granted σ stages searches τ)
    (h' : Granted τ stages' searches' υ) :
    Granted σ (stages ++ stages') (searches ++ searches') υ where
  stageIds := by
    rw [List.length_append, idsFrom_add, ← h.stageIds, ← h.nextStage, ← h'.stageIds]
  nextStage := by
    rw [h'.nextStage, h.nextStage, List.length_append, Int.natCast_add, Int.add_assoc]
  searchIds := by
    rw [List.map_append, h.searchIds, h'.searchIds, List.length_append, idsFrom_add,
      h.nextSubContext]
  nextSubContext := by
    rw [h'.nextSubContext, h.nextSubContext, List.length_append, Int.natCast_add, Int.add_assoc]
  entries := by rw [h'.entries, h.entries, List.append_assoc]

/-- What is granted is counted. -/
theorem isNumbered {σ τ : Session} {stages : List StageId}
    {searches : List (SubContextId × ShardLocation)} (h : Granted σ stages searches τ)
    (hσ : σ.IsNumbered) : τ.IsNumbered := by
  intro e he
  rw [h.entries] at he
  rw [h.nextSubContext]
  rcases List.mem_append.1 he with he | he
  · exact Int.lt_of_lt_of_le (hσ e he) (Int.le_add_of_nonneg_right (Int.natCast_nonneg _))
  · have hid := List.mem_map_of_mem (f := Prod.fst) he
    rw [h.searchIds] at hid
    exact (mem_idsFrom.1 hid).2

end Granted

/-- A search is entered after all others. -/
theorem granted_openSearch {σ : Session} (hσ : σ.IsNumbered) (location : ShardLocation) :
    Granted σ [] [((σ.openSearch location).1, location)] (σ.openSearch location).2 where
  stageIds := rfl
  nextStage := (Int.add_zero _).symm
  searchIds := by simp [idsFrom, openSearch]
  nextSubContext := rfl
  entries := SortedMap.insertEntry_of_forall_lt fun e he =>
    compareOfLessAndEq_eq_lt.2 (hσ e he)

theorem granted_openSearches {σ : Session} (hσ : σ.IsNumbered) (locations : List ShardLocation) :
    (σ.openSearches locations).1.length = locations.length ∧
      Granted σ [] ((σ.openSearches locations).1.zip locations) (σ.openSearches locations).2 := by
  induction locations generalizing σ with
  | nil => exact ⟨rfl, .refl σ⟩
  | cons location rest ih =>
    have hfirst := granted_openSearch hσ location
    obtain ⟨hlength, hrest⟩ := ih (hfirst.isNumbered hσ)
    exact ⟨congrArg (· + 1) hlength, hfirst.trans hrest⟩

theorem granted_grant {σ : Session} (hσ : σ.IsNumbered) (request : Request) :
    (σ.grant request).1.request = request ∧ (σ.grant request).1.IsFull ∧
      Granted σ (σ.grant request).1.stageIds (σ.grant request).1.located (σ.grant request).2 := by
  cases request with
  | stage => exact ⟨rfl, trivial, by simp [idsFrom, grant, Grant.stageIds, takeStage], rfl, rfl,
      (Int.add_zero _).symm, (List.append_nil _).symm⟩
  | searches routing collect =>
    obtain ⟨hlength, hgranted⟩ := granted_openSearches hσ
      (routing.shards.map fun (node, index, shard) => ⟨node, index, shard, collect⟩)
    exact ⟨rfl, hlength.trans (List.length_map _), hgranted⟩

/-- What a session has entered when it has answered some requests is what it has granted. -/
theorem granted_grantAll {σ : Session} (hσ : σ.IsNumbered) (requests : List Request) :
    (σ.grantAll requests).1.map Grant.request = requests ∧
      (∀ g ∈ (σ.grantAll requests).1, g.IsFull) ∧
      Granted σ ((σ.grantAll requests).1.flatMap Grant.stageIds)
        ((σ.grantAll requests).1.flatMap Grant.located) (σ.grantAll requests).2 := by
  induction requests generalizing σ with
  | nil => exact ⟨rfl, List.forall_mem_nil _, .refl σ⟩
  | cons request rest ih =>
    obtain ⟨hrequest, hfull, hfirst⟩ := granted_grant hσ request
    obtain ⟨hrequests, hfulls, hrest⟩ := ih (hfirst.isNumbered hσ)
    exact ⟨congrArg₂ _ hrequest hrequests, List.forall_mem_cons.2 ⟨hfull, hfulls⟩,
      hfirst.trans hrest⟩

/-! ### What a session keeps to -/

/-- The ids that a session gives out are kept apart. -/
structure KeepsShardsApart (σ : Session) (requests : List Request) (grants : List Grant)
    (τ : Session) : Prop where
  /-- Every request is answered. -/
  answers : grants.map Grant.request = requests
  /-- No stage id is given out twice, and all are below their number. -/
  stageIds : (grants.flatMap Grant.stageIds).Nodup ∧
    ∀ id ∈ grants.flatMap Grant.stageIds, 0 ≤ id ∧ id < (grants.flatMap Grant.stageIds).length
  /-- No id of a search is given out twice, and all are below their number. -/
  searchIds : (grants.flatMap Grant.searchIds).Nodup ∧
    ∀ id ∈ grants.flatMap Grant.searchIds, 0 ≤ id ∧ id < (grants.flatMap Grant.searchIds).length
  /-- There is one id per shard, in the order of the shards, and whatever is requested later, the
  search of the id is found at its shard and collect stage. -/
  located : ∀ routing collect ids, .searches routing collect ids ∈ grants →
    ∃ shards, routing.Enumerates shards ∧ ∀ later, List.Forall₂ (fun id x =>
      (σ.grantAll (requests ++ later)).2.subContexts.get? id =
        some ⟨x.1, x.2.1, x.2.2, collect⟩) ids shards
  /-- The searches of a collect stage are those that were requested for it. -/
  ofStage : ∀ collect id, id ∈ (τ.subContextsOf collect).keys ↔
    ∃ routing ids, .searches routing collect ids ∈ grants ∧ id ∈ ids
  /-- Two collect stages have no search in common. -/
  disjoint : ∀ collect collect', collect ≠ collect' →
    (τ.subContextsOf collect).keys.Disjoint (τ.subContextsOf collect').keys
  /-- Every search is one of some collect stage. -/
  cover : ∀ id location, τ.subContexts.get? id = some location ↔
    ∃ collect, (τ.subContextsOf collect).get? id = some location

theorem get?_subContextsOf {σ : Session} {collect : StageId} {id : SubContextId}
    {location : ShardLocation} : (σ.subContextsOf collect).get? id = some location ↔
      σ.subContexts.get? id = some location ∧ location.collectStage = collect := by
  rw [SortedMap.get?_eq_some_iff, SortedMap.get?_eq_some_iff]
  simp [subContextsOf, SortedMap.filter]

theorem isNumbered_start (cluster : Cluster) (settings : PlannerSettings) (job : JobId) :
    (start cluster settings job).IsNumbered := fun _ h => nomatch h

end Session

/-- A full grant enters its ids one by one with the shards. -/
theorem Grant.IsFull.forall₂_located {routing : Routing} {collect : StageId}
    {ids : List SubContextId} (h : (Grant.searches routing collect ids).IsFull) :
    List.Forall₂ (fun id x => (id, ShardLocation.mk x.1 x.2.1 x.2.2 collect) ∈
      (Grant.searches routing collect ids).located) ids routing.shards := by
  have hzip : List.Forall₂ (fun id location => (id, location) ∈
      (Grant.searches routing collect ids).located) ids (routing.shards.map fun x =>
        ShardLocation.mk x.1 x.2.1 x.2.2 collect) :=
    List.forall₂_iff_zip.2 ⟨h.trans (List.length_map _).symm, fun hmem => hmem⟩
  exact List.forall₂_map_right_iff.1 hzip

theorem Grant.IsFull.searchIds_eq {g : Grant} (h : g.IsFull) :
    g.located.map (·.1) = g.searchIds := by
  cases g with
  | stage id => rfl
  | searches routing collect ids =>
    exact List.map_fst_zip (Nat.le_of_eq (h.trans (List.length_map _).symm))

theorem Grant.collectStage_of_mem_located {g : Grant} {id : SubContextId}
    {location : ShardLocation} (h : (id, location) ∈ g.located) :
    ∃ routing ids, g = .searches routing location.collectStage ids ∧ id ∈ ids := by
  cases g with
  | stage _ => cases h
  | searches routing collect ids =>
    obtain ⟨hid, hlocation⟩ := List.of_mem_zip h
    obtain ⟨_, -, rfl⟩ := List.mem_map.1 hlocation
    exact ⟨routing, ids, rfl, hid⟩

namespace Session

section Start

variable (cluster : Cluster) (settings : PlannerSettings) (job : JobId) (requests : List Request)

/-- The map of searches is the history of grants. -/
theorem get?_grantAll_iff {id : SubContextId} {location : ShardLocation} :
    ((start cluster settings job).grantAll requests).2.subContexts.get? id = some location ↔
      ∃ g ∈ ((start cluster settings job).grantAll requests).1, (id, location) ∈ g.located := by
  obtain ⟨-, -, hgranted⟩ := granted_grantAll (isNumbered_start cluster settings job) requests
  rw [SortedMap.get?_eq_some_iff, hgranted.entries, ← List.mem_flatMap]
  rfl

theorem searchIds_grantAll :
    ((start cluster settings job).grantAll requests).1.flatMap Grant.searchIds = idsFrom 0
      (((start cluster settings job).grantAll requests).1.flatMap Grant.located).length := by
  obtain ⟨-, hfull, hgranted⟩ := granted_grantAll (isNumbered_start cluster settings job) requests
  have hids := hgranted.searchIds
  rw [List.map_flatMap] at hids
  rw [← List.flatMap_congr fun g hg => (hfull g hg).searchIds_eq]
  exact hids

/-- The searches of a collect stage are those that were requested for it. -/
theorem mem_subContextsOf_iff {collect : StageId} {id : SubContextId} :
    id ∈ (((start cluster settings job).grantAll requests).2.subContextsOf collect).keys ↔
      ∃ routing ids, .searches routing collect ids ∈
        ((start cluster settings job).grantAll requests).1 ∧ id ∈ ids := by
  obtain ⟨-, hfull, -⟩ := granted_grantAll (isNumbered_start cluster settings job) requests
  rw [SortedMap.mem_keys_iff]
  constructor
  · rintro ⟨location, hlocation⟩
    obtain ⟨hsome, rfl⟩ := get?_subContextsOf.1 hlocation
    obtain ⟨g, hg, hmem⟩ := (get?_grantAll_iff cluster settings job requests).1 hsome
    obtain ⟨routing, ids, rfl, hid⟩ := Grant.collectStage_of_mem_located hmem
    exact ⟨routing, ids, hg, hid⟩
  · rintro ⟨routing, ids, hg, hid⟩
    have hmem : id ∈ (Grant.searches routing collect ids).located.map (·.1) :=
      (hfull _ hg).searchIds_eq ▸ hid
    obtain ⟨⟨_, location⟩, hlocated, rfl⟩ := List.mem_map.1 hmem
    obtain ⟨_, _, heq, -⟩ := Grant.collectStage_of_mem_located hlocated
    obtain ⟨-, hcollect, -⟩ := Grant.searches.inj heq
    have hsome := (get?_grantAll_iff cluster settings job requests).2 ⟨_, hg, hlocated⟩
    exact ⟨location, get?_subContextsOf.2 ⟨hsome, hcollect.symm⟩⟩

/-- Whatever is requested later, the searches of a grant are found at the shards of its routing. -/
theorem located_grantAll (later : List Request) {routing : Routing} {collect : StageId}
    {ids : List SubContextId}
    (hg : .searches routing collect ids ∈ ((start cluster settings job).grantAll requests).1) :
    List.Forall₂ (fun id x => ((start cluster settings job).grantAll
      (requests ++ later)).2.subContexts.get? id = some ⟨x.1, x.2.1, x.2.2, collect⟩)
      ids routing.shards := by
  obtain ⟨-, hfull, -⟩ := granted_grantAll (isNumbered_start cluster settings job) requests
  refine (hfull _ hg).forall₂_located.imp fun id x hmem => ?_
  refine (get?_grantAll_iff cluster settings job (requests ++ later)).2 ⟨_, ?_, hmem⟩
  -- later requests only add to the history
  rw [grantAll_append]
  exact List.mem_append_left _ hg

/-- Whatever a new session is asked for, it gives out every id once, finds every search where it
was entered ever after, and keeps the searches of different stages apart. -/
theorem keepsShardsApart :
    KeepsShardsApart (start cluster settings job) requests
      ((start cluster settings job).grantAll requests).1
      ((start cluster settings job).grantAll requests).2 := by
  obtain ⟨hanswers, -, hgranted⟩ :=
    granted_grantAll (isNumbered_start cluster settings job) requests
  refine ⟨hanswers, nodup_and_bounded hgranted.stageIds,
    nodup_and_bounded (searchIds_grantAll cluster settings job requests),
    fun routing collect ids hg => ⟨routing.shards, routing.enumerates_shards, fun later =>
      located_grantAll cluster settings job requests later hg⟩,
    fun collect id => mem_subContextsOf_iff cluster settings job requests, ?_, ?_⟩
  · intro collect collect' hne id hid hid'
    obtain ⟨location, hlocation⟩ := SortedMap.mem_keys_iff.1 hid
    obtain ⟨location', hlocation'⟩ := SortedMap.mem_keys_iff.1 hid'
    obtain ⟨hsome, rfl⟩ := get?_subContextsOf.1 hlocation
    obtain ⟨hsome', rfl⟩ := get?_subContextsOf.1 hlocation'
    rw [hsome, Option.some.injEq] at hsome'
    exact hne (congrArg _ hsome')
  · intro id location
    constructor
    · intro hsome
      exact ⟨location.collectStage, get?_subContextsOf.2 ⟨hsome, rfl⟩⟩
    · rintro ⟨collect, hlocation⟩
      exact (get?_subContextsOf.1 hlocation).1

end Start

/-- Two tables with a shard on one node, the second one twice for the same collect stage. -/
example :
    let routing := fun index shards => Routing.mk (.ofList [("n", .ofList [(index, shards)])])
    let τ := ((start (.ofTables "n" .empty) ⟨10, 10⟩ 7).grantAll
      [.stage, .searches (routing "t" [4]) 0, .stage, .searches (routing "u" [1, 0]) 1,
        .searches (routing "t" [4]) 0]).2
    (τ.subContextsOf 0).keys = [0, 3] ∧ τ.subContexts.get? 2 = some ⟨"n", "u", 0, 1⟩ := by
  decide

end Session

end ShardJoin
