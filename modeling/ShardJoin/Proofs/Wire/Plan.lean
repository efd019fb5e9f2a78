/-
Plans that come back from their JSON form.

The stages of a plan carry their ids, the maps of a fetch are keyed by ids, and
rows are read at positions; a plan fits if all of these do, on every level of
the tree (`Plan.Fits`).  That it comes back follows the recursion of the plan,
that nothing else is read the recursion of the JSON value.
-/
import ShardJoin.Proofs.Wire.Expr
import ShardJoin.Wire.Plan

namespace ShardJoin

open Wire

/-! ### Stages -/

instance : LawfulWire Routing where
  decode_encode {r} _ := by
    unfold instWireRouting
    simp

instance : Unbounded Routing := ⟨fun _ => trivial⟩

instance : LawfulWire ShardLocation where
  Fits l := Fits l.collectStage
  decode_encode {l} hstage := by
    unfold instWireShardLocation
    simp [hstage]
  fits_of_decode h := by
    unfold instWireShardLocation at h
    simp only [Option.bind_eq_bind, Option.bind_eq_some_iff] at h
    obtain ⟨_, -, _, -, _, -, stage, hstage, h⟩ := h
    cases h
    exact fits_of_required hstage

instance : LawfulWire Downstream where
  Fits d := ∀ id ∈ d.stage?, Fits id
  decode_encode {d} h := by
    unfold instWireDownstream
    cases d with
    | handler node => simp [Json.tagged]
    | stage nodes id =>
      have hid : Fits id := h id rfl
      simp [Json.tagged, hid]
  fits_of_decode h := by
    unfold instWireDownstream at h
    dsimp only at h
    split at h
    case h_1 =>
      obtain ⟨_, -, h⟩ := Option.bind_eq_some_iff.1 h
      cases h
      exact fun _ hid => nomatch hid
    case h_2 =>
      obtain ⟨_, -, h⟩ := Option.bind_eq_some_iff.1 h
      obtain ⟨id, hid, h⟩ := Option.bind_eq_some_iff.1 h
      cases h
      exact fun _ hmem => Option.some.inj hmem ▸ fits_of_required hid
    case h_3 => cases h

instance : LawfulWire Fetch where
  Fits f := Fits f.docIdColumns ∧ Fits f.outputs ∧ Fits f.executionNodes ∧ Fits f.subContexts
  decode_encode {f} h := by
    obtain ⟨hdocIds, houtputs, hnodes, hcontexts⟩ := h
    unfold instWireFetch
    simp [hdocIds, houtputs, hnodes, hcontexts]
  fits_of_decode h := by
    unfold instWireFetch at h
    simp only [Option.bind_eq_bind, Option.bind_eq_some_iff] at h
    obtain ⟨docIds, hdocIds, _, -, _, -, outputs, houtputs, _, -, nodes, hnodes, contexts,
      hcontexts, _, -, h⟩ := h
    cases h
    exact ⟨fits_of_required hdocIds, fits_of_required houtputs, fits_of_required hnodes,
      fits_of_required hcontexts⟩

instance : LawfulWire Projection where
  Fits
    | .filter query => Fits query
    | .topN _ _ orderBy outputs => Fits orderBy ∧ Fits outputs
    | .fetch f => Fits f
    | .nestedLoopMerge outputs => Fits outputs
  decode_encode {p} h := by
    unfold instWireProjection
    cases p with
    | filter query =>
      have hquery : Fits query := h
      simp [Json.tagged, hquery]
    | topN limit offset orderBy outputs =>
      obtain ⟨horderBy, houtputs⟩ : Fits orderBy ∧ Fits outputs := h
      simp [Json.tagged, horderBy, houtputs]
    | fetch f =>
      have hf : Fits f := h
      simp [Json.tagged, hf]
    | nestedLoopMerge outputs =>
      have houtputs : Fits outputs := h
      simp [Json.tagged, houtputs]
  fits_of_decode h := by
    unfold instWireProjection at h
    dsimp only at h
    split at h
    case h_1 =>
      obtain ⟨query, hquery, h⟩ := Option.bind_eq_some_iff.1 h
      cases h
      exact fits_of_required hquery
    case h_2 =>
      simp only [Option.bind_eq_bind, Option.bind_eq_some_iff] at h
      obtain ⟨_, -, _, -, orderBy, horderBy, outputs, houtputs, h⟩ := h
      cases h
      exact ⟨fits_of_optional horderBy, fits_of_required houtputs⟩
    case h_3 =>
      obtain ⟨f, hf, rfl⟩ := Option.map_eq_some_iff.1 h
      exact fits_of_decode hf
    case h_4 =>
      obtain ⟨outputs, houtputs, h⟩ := Option.bind_eq_some_iff.1 h
      cases h
      exact fits_of_required houtputs
    case h_5 => cases h

instance : LawfulWire CollectStage where
  Fits s := Fits s.id ∧ Fits s.outputs ∧ Fits s.whereClause ∧ Fits s.orderBy ∧ Fits s.downstream
  decode_encode {s} h := by
    obtain ⟨hid, houtputs, hwhere, horderBy, hdownstream⟩ := h
    unfold instWireCollectStage
    simp [hid, houtputs, hwhere, horderBy, hdownstream]
  fits_of_decode h := by
    unfold instWireCollectStage at h
    simp only [Option.bind_eq_bind, Option.bind_eq_some_iff] at h
    obtain ⟨id, hid, _, -, _, -, _, -, outputs, houtputs, whereClause, hwhere, _, -, orderBy,
      horderBy, downstream, hdownstream, h⟩ := h
    cases h
    exact ⟨fits_of_required hid, fits_of_required houtputs, fits_of_required hwhere,
      fits_of_optional horderBy, fits_of_required hdownstream⟩

instance : LawfulWire MergeStage where
  Fits s := Fits s.id ∧ Fits s.projections ∧ Fits s.sort ∧ Fits s.downstream
  decode_encode {s} h := by
    obtain ⟨hid, hprojections, hsort, hdownstream⟩ := h
    unfold instWireMergeStage
    simp [hid, hprojections, hsort, hdownstream]
  fits_of_decode h := by
    unfold instWireMergeStage at h
    simp only [Option.bind_eq_bind, Option.bind_eq_some_iff] at h
    obtain ⟨id, hid, _, -, _, -, _, -, _, -, projections, hprojections, sort, hsort, downstream,
      hdownstream, h⟩ := h
    cases h
    exact ⟨fits_of_required hid, fits_of_required hprojections, fits_of_optional hsort,
      fits_of_required hdownstream⟩

instance : NeverNull MergeStage := ⟨fun _ => nofun⟩

/-! ### Plans -/

instance : LawfulWire TableGet where
  Fits g := Fits g.outputs ∧ Fits g.docKeys
  decode_encode {g} h := by
    obtain ⟨houtputs, hdocKeys⟩ := h
    unfold instWireTableGet
    simp [houtputs, hdocKeys]
  fits_of_decode h := by
    unfold instWireTableGet at h
    simp only [Option.bind_eq_bind, Option.bind_eq_some_iff] at h
    obtain ⟨_, -, _, -, outputs, houtputs, docKeys, hdocKeys, _, -, h⟩ := h
    cases h
    exact ⟨fits_of_required houtputs, fits_of_required hdocKeys⟩

instance : LawfulWire FetchPhase where
  Fits f := Fits f.outputs
  decode_encode {f} houtputs := by
    unfold instWireFetchPhase
    simp [houtputs]
  fits_of_decode h := by
    unfold instWireFetchPhase at h
    simp only [Option.bind_eq_bind, Option.bind_eq_some_iff] at h
    obtain ⟨outputs, houtputs, _, -, h⟩ := h
    cases h
    exact fits_of_required houtputs

instance : NeverNull FetchPhase := ⟨fun _ => nofun⟩

instance : LawfulWire Scan where
  Fits s := Fits s.collect ∧ Fits s.merge ∧ Fits s.fetch
  decode_encode {s} h := by
    obtain ⟨hcollect, hmerge, hfetch⟩ := h
    unfold instWireScan
    simp [hcollect, hmerge, hfetch]
  fits_of_decode h := by
    unfold instWireScan at h
    simp only [Option.bind_eq_bind, Option.bind_eq_some_iff] at h
    obtain ⟨collect, hcollect, merge, hmerge, fetch, hfetch, h⟩ := h
    cases h
    exact ⟨fits_of_required hcollect, fits_of_optional hmerge, fits_of_optional hfetch⟩

mutual
/-- The positions and ids of a plan fit the words that they are shipped in. -/
def Plan.Fits : Plan → Prop
  | .tableGet get => Wire.Fits get
  | .scan s => Wire.Fits s
  | .nestedLoop left right _ merge => left.Fits ∧ right.Fits ∧ Wire.Fits merge
  | .noOp _ => True
  | .iterable plans => Plan.AllFit plans

/-- The plans of a list fit. -/
def Plan.AllFit : List Plan → Prop
  | [] => True
  | p :: ps => p.Fits ∧ Plan.AllFit ps
end

mutual
theorem Plan.decode_encode : ∀ {p : Plan}, p.Fits → Plan.decode p.encode = some p
  | .tableGet get, h => by
    have hget : Wire.Fits get := h
    simp [Plan.encode, Json.tagged, Plan.decode, hget]
  | .scan s, h => by
    have hs : Wire.Fits s := h
    simp [Plan.encode, Json.tagged, Plan.decode, hs]
  | .nestedLoop left right outer merge, h => by
    obtain ⟨hleft, hright, hmerge⟩ : left.Fits ∧ right.Fits ∧ Wire.Fits merge := h
    simp [Plan.encode, Json.tagged, Plan.decode, Json.member?, Plan.decode_encode hleft,
      Plan.decode_encode hright, hmerge]
  | .noOp types, _ => by
    simp [Plan.encode, Json.tagged, Plan.decode]
  | .iterable plans, h => by
    have hplans : Plan.decodeAll (Plan.encodeAll plans) = some plans := Plan.decodeAll_encodeAll h
    simp [Plan.encode, Json.tagged, Plan.decode, Json.items?, Json.member?, hplans]

theorem Plan.decodeAll_encodeAll : ∀ {l : List Plan}, Plan.AllFit l →
    Plan.decodeAll (Plan.encodeAll l) = some l
  | [], _ => by simp [Plan.encodeAll, Plan.decodeAll]
  | p :: ps, h => by
    obtain ⟨hp, hps⟩ : p.Fits ∧ Plan.AllFit ps := h
    simp [Plan.encodeAll, Plan.decodeAll, Plan.decode_encode hp, Plan.decodeAll_encodeAll hps]
end

mutual
theorem Plan.fits_of_decode {j : Json} {p : Plan} (h : Plan.decode j = some p) : p.Fits := by
  -- one case for each kind of plan, in the order in which they are tried
  rw [Plan.decode.eq_def] at h
  split at h
  case h_1 =>
    obtain ⟨get, hget, rfl⟩ := Option.map_eq_some_iff.1 h
    exact Wire.fits_of_decode hget
  case h_2 =>
    obtain ⟨s, hs, rfl⟩ := Option.map_eq_some_iff.1 h
    exact Wire.fits_of_decode hs
  case h_3 =>
    simp only [Option.bind_eq_bind, Option.bind_eq_some_iff] at h
    obtain ⟨⟨l, hl⟩, -, ⟨r, hr⟩, -, left, hleft, right, hright, _, -, merge, hmerge, h⟩ := h
    cases h
    exact ⟨Plan.fits_of_decode hleft, Plan.fits_of_decode hright, fits_of_required hmerge⟩
  case h_4 =>
    obtain ⟨_, -, h⟩ := Option.bind_eq_some_iff.1 h
    cases h
    exact trivial
  case h_5 =>
    obtain ⟨⟨items, hsize⟩, -, h⟩ := Option.bind_eq_some_iff.1 h
    obtain ⟨plans, hplans, h⟩ := Option.bind_eq_some_iff.1 h
    cases h
    exact Plan.fits_of_decodeAll hplans
  case h_6 => cases h
termination_by sizeOf j
decreasing_by all_goals subst_vars; simp; omega

theorem Plan.fits_of_decodeAll {js : List Json} {l : List Plan}
    (h : Plan.decodeAll js = some l) : Plan.AllFit l := by
  cases js with
  | nil =>
    rw [Plan.decodeAll] at h
    cases h
    exact trivial
  | cons j js =>
    rw [Plan.decodeAll] at h
    obtain ⟨p, hp, h⟩ := Option.bind_eq_some_iff.1 h
    obtain ⟨ps, hps, h⟩ := Option.bind_eq_some_iff.1 h
    cases h
    exact ⟨Plan.fits_of_decode hp, Plan.fits_of_decodeAll hps⟩
termination_by sizeOf js
end

instance : LawfulWire Plan where
  Fits := Plan.Fits
  decode_encode := Plan.decode_encode
  fits_of_decode := Plan.fits_of_decode

end ShardJoin
