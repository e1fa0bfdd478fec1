import SuiArbitrage.Lib.HighWater
import SuiArbitrage.Rust.Ws

/-! The checkpoint-diff ingestion of `offchain/src/ingest.rs`. An iteration whose
checkpoint is not new does nothing, and a pool whose version has not advanced is
skipped; both marks are set before the work they stand for. -/
namespace SuiArbitrage.Rust.Ingest
open MachineWord Fallible HighWater
open Move (ObjectId)
open Executor (LivePoolRef)

/-- A cached pool with the version of the object that it was decoded from, where the
ingestion wrote it. The code does not keep the version. -/
structure Snapshot where
  state : PoolState
  version : Option U64

/-- The shared maps and the two marks. `readFor` is a record for the proofs: the
checkpoints whose batched read succeeded. -/
structure Ingestion where
  cache : PoolId → Option Snapshot
  registry : PoolId → Option LivePoolRef
  seen : PoolId → Option U64
  lastCp : U64
  readFor : List U64

structure Iteration where
  tip : Anyhow U64
  multiGetObject : List ObjectId → Anyhow (List SuiObjectResponse)

abbrev Pool := Ws.Tracked × ObjectId

/-- `changed_since`: the readings above the last seen version, each in its turn. -/
def changedSince (seen : PoolId → Option U64) (fresh : List (PoolId × U64)) : (PoolId → Option U64) × List PoolId :=
  advance seen fresh

section run
variable (sdk : Sdk)

/-- The tracked pools with their parsed ids. The text of a parse error is the library's. -/
def track (entries : List String) : Anyhow (List Pool) := do
  let tracked ← Ws.parseTracked entries
  tracked.mapM fun t => do
    let id ← orBail "invalid object id" (sdk.parseId t.poolId)
    return (t,id)

def freshVersions (answered : List (Pool × SuiObjectResponse)) : List (PoolId × U64) :=
  answered.filterMap fun (p,obj) => obj.data.map fun d => (p.1.poolId,d.version)

def refreshPool (changed : List PoolId) (st : Ingestion) (answered : Pool × SuiObjectResponse) : Ingestion :=
  let (p,obj) := answered
  if p.1.poolId ∉ changed then st
  else
    match Ws.decodePool sdk p.1.dex obj with
    | .ok (state,lref) =>
      {st with
        cache := Function.update st.cache state.id (some ⟨state,obj.data.map (·.version)⟩)
        registry := Function.update st.registry p.1.poolId (some lref)}
    | .error _ => st

def diffOnce (tracked : List Pool) (st : Ingestion) (it : Iteration) : Ingestion :=
  match it.tip with
  | .error _ => st
  | .ok cp =>
    if cp ≤ st.lastCp then st
    else
      let st := {st with lastCp := cp}
      match it.multiGetObject (tracked.map Prod.snd) with
      | .error _ => st
      | .ok objs =>
        let answered := tracked.zip objs
        let (seen,changed) := changedSince st.seen (freshVersions answered)
        let st := {st with seen := seen, readFor := cp :: st.readFor}
        if changed = [] then st
        else answered.foldl (refreshPool sdk changed) st

def start (cache : PoolId → Option PoolState) (registry : PoolId → Option LivePoolRef) : Ingestion where
  cache id := (cache id).map fun state => ⟨state,none⟩
  registry := registry
  seen _ := none
  lastCp := 0
  readFor := []

/-- One iteration as a step of a run: it never fails. -/
def iterate (tracked : List Pool) (st : Ingestion) (it : Iteration) : Rust Ingestion := .ok (diffOnce sdk tracked st it)

def runCheckpointDiff (entries : List String) (cache : PoolId → Option PoolState)
    (registry : PoolId → Option LivePoolRef) (iterations : List Iteration) : Anyhow Ingestion := do
  let tracked ← track sdk entries
  if tracked = [] then
    return start cache registry
  return iterations.foldl (diffOnce sdk tracked) (start cache registry)

end run

section reports
variable {seen : PoolId → Option U64} {calls : List (List (PoolId × U64))}

/-- The calls of a run on one map, with the report of each. -/
def changedSinceAll (seen : PoolId → Option U64) : List (List (PoolId × U64)) → (PoolId → Option U64) × List (List PoolId)
  | [] => (seen,[])
  | fresh :: rest =>
    let (seen,changed) := changedSince seen fresh
    let (seen,reports) := changedSinceAll seen rest
    (seen,changed :: reports)

/-- The ids of the entries of a list that are newer than all before them, in their order. -/
def newIds (past fresh : List (PoolId × U64)) : List PoolId :=
  ((withPast fresh).filter fun entry => New (past ++ entry.1) entry.2).map (·.2.1)

theorem changedSinceAll_recounts {past : List (PoolId × U64)} (recounts : Recounts seen past) :
    Recounts (changedSinceAll seen calls).1 (past ++ calls.flatten) := by
  induction calls generalizing seen past with
  | nil => simpa [changedSinceAll] using recounts
  | cons fresh rest ih =>
    rw [List.flatten_cons,← List.append_assoc]
    exact ih recounts.advance

theorem changedSinceAll_reports {past : List (PoolId × U64)} (recounts : Recounts seen past) :
    (changedSinceAll seen calls).2 = (withPast calls).map fun call => newIds (past ++ call.1.flatten) call.2 := by
  induction calls generalizing seen past with
  | nil => rfl
  | cons fresh rest ih =>
    have first : (changedSince seen fresh).2 = newIds past fresh := recounts.raised
    have after : Recounts (changedSince seen fresh).1 (past ++ fresh) := recounts.advance
    rw [withPast_cons,List.map_cons,List.map_map,List.flatten_nil,List.append_nil]
    simp only [changedSinceAll,first,ih after,Function.comp_def,List.flatten_cons,List.append_assoc]

/-- Over all calls on one map, an entry is reported exactly when it is newer than every
entry for its id before it, and the map holds the newest version given for each id. -/
theorem changedSince_history (calls : List (List (PoolId × U64))) :
    (changedSinceAll (fun _ => none) calls).2 = (withPast calls).map (fun call => newIds call.1.flatten call.2) ∧
      ∀ id, (changedSinceAll (fun _ => none) calls).1 id = ((calls.flatten.filter (·.1 = id)).map Prod.snd).max? := by
  constructor
  · simpa using changedSinceAll_reports recounts_start
  · intro id
    simpa using (changedSinceAll_recounts recounts_start).mark

/-- The readings of the repository's own test. -/
example : (changedSinceAll (fun _ => none) [[("a",5),("b",3)],[("a",5),("b",3)],[("a",6),("b",3)],[("a",4)],[("c",1)]]).2 =
    [["a","b"],[],["a"],[],["c"]] := by decide

end reports

theorem decodePool_id {sdk : Sdk} {dex : Dex} {obj : SuiObjectResponse} {state : PoolState} {lref : LivePoolRef}
    (decoded : Ws.decodePool sdk dex obj = .ok (state,lref)) :
    ∃ d, obj.data = some d ∧ state.id = sdk.renderId d.objectId := by
  simp only [Ws.decodePool,bind_ok,pure_ok,Prod.mk.injEq,orBail_ok] at decoded
  obtain ⟨d,found,_,-,_,-,_,-,_,-,_,-,_,-,_,-,_,-,rfl,-⟩ := decoded
  exact ⟨d,found,rfl⟩

section batch
variable {sdk : Sdk} {changed : List PoolId} {st : Ingestion}

/-- What a batch leaves of the snapshots of one object: nothing new, unless an entry for
it changed, and else a snapshot of the version that all entries for it were answered at. -/
structure Refreshed (sdk : Sdk) (changed : List PoolId) (answered : List (Pool × SuiObjectResponse)) (oid : ObjectId)
    (before after : Ingestion) : Prop where
  untouched : (∀ entry ∈ answered, entry.1.2 = oid → entry.1.1.poolId ∉ changed) →
    after.cache (sdk.renderId oid) = before.cache (sdk.renderId oid)
  touched : ∀ entry ∈ answered, entry.1.2 = oid → entry.1.1.poolId ∈ changed →
    ∃ state, after.cache (sdk.renderId oid) = some ⟨state,entry.2.data.map (·.version)⟩

theorem refreshPool_other (st : Ingestion) {entry : Pool × SuiObjectResponse} {oid : ObjectId} (injective : Function.Injective sdk.renderId)
    (requested : ∀ d, entry.2.data = some d → d.objectId = entry.1.2)
    (other : entry.1.2 = oid → entry.1.1.poolId ∉ changed) :
    (refreshPool sdk changed st entry).cache (sdk.renderId oid) = st.cache (sdk.renderId oid) := by
  unfold refreshPool
  dsimp only
  split
  · rfl
  · rename_i listed
    split
    next state lref decoded =>
      obtain ⟨d,found,key⟩ := decodePool_id decoded
      rw [requested d found] at key
      refine Function.update_of_ne (fun same => ?_) _ _
      exact other (injective (key.symm.trans same.symm)) (not_not.mp listed)
    next => rfl

theorem refreshPool_changed {entry : Pool × SuiObjectResponse} {result : PoolState × LivePoolRef}
    (requested : ∀ d, entry.2.data = some d → d.objectId = entry.1.2) (listed : entry.1.1.poolId ∈ changed)
    (decoded : Ws.decodePool sdk entry.1.1.dex entry.2 = .ok result) :
    (refreshPool sdk changed st entry).cache (sdk.renderId entry.1.2) =
      some ⟨result.1,entry.2.data.map (·.version)⟩ := by
  obtain ⟨d,found,key⟩ := decodePool_id decoded
  rw [requested d found] at key
  unfold refreshPool
  dsimp only
  rw [if_neg (not_not.mpr listed),decoded]
  dsimp only
  rw [key,Function.update_self]

theorem batch_refreshed (st : Ingestion) {answered : List (Pool × SuiObjectResponse)} (oid : ObjectId)
    (injective : Function.Injective sdk.renderId)
    (requested : ∀ entry ∈ answered, ∀ d, entry.2.data = some d → d.objectId = entry.1.2)
    (decodes : ∀ entry ∈ answered, entry.1.1.poolId ∈ changed → ∃ result, Ws.decodePool sdk entry.1.1.dex entry.2 = .ok result)
    (alike : ∀ first ∈ answered, ∀ second ∈ answered, first.1.2 = second.1.2 →
      first.2.data.map (·.version) = second.2.data.map (·.version)) :
    Refreshed sdk changed answered oid st (answered.foldl (refreshPool sdk changed) st) := by
  induction answered generalizing st with
  | nil => exact ⟨fun _ => rfl,List.forall_mem_nil _⟩
  | cons entry rest ih =>
    rw [List.foldl_cons]
    have tail : Refreshed sdk changed rest oid (refreshPool sdk changed st entry) _ :=
      ih (refreshPool sdk changed st entry) (fun e member => requested e (List.mem_cons_of_mem _ member))
        (fun e member => decodes e (List.mem_cons_of_mem _ member))
        (fun first one second two => alike first (List.mem_cons_of_mem _ one) second (List.mem_cons_of_mem _ two))
    have asked := requested entry List.mem_cons_self
    by_cases here : entry.1.2 = oid ∧ entry.1.1.poolId ∈ changed
    · obtain ⟨rfl,listed⟩ := here
      obtain ⟨result,decoded⟩ := decodes entry List.mem_cons_self listed
      refine ⟨fun none => absurd listed (none entry List.mem_cons_self rfl),?_⟩
      intro e member same changes
      by_cases later : ∀ e ∈ rest, e.1.2 = entry.1.2 → e.1.1.poolId ∉ changed
      · rw [tail.untouched later,refreshPool_changed asked listed decoded,
          alike e member entry List.mem_cons_self same]
        exact ⟨_,rfl⟩
      · push Not at later
        obtain ⟨other,listedOther,sameOther,changesOther⟩ := later
        rw [alike e member other (List.mem_cons_of_mem _ listedOther) (same.trans sameOther.symm)]
        exact tail.touched other listedOther sameOther changesOther
    · have kept := refreshPool_other st injective asked fun same listed => here ⟨same,listed⟩
      constructor
      · intro none
        rw [tail.untouched fun e member => none e (List.mem_cons_of_mem _ member),kept]
      · intro e member same changes
        rcases List.mem_cons.mp member with rfl | later
        · exact absurd ⟨same,changes⟩ here
        · exact tail.touched e later same changes

end batch

section runs
variable {sdk : Sdk} {tracked : List Pool}

/-- The documented behaviour of a batched read: one response for each id, in order. -/
def Aligned (it : Iteration) : Prop :=
  ∀ ids objs, it.multiGetObject ids = .ok objs → objs.length = ids.length ∧
    ∀ entry ∈ ids.zip objs, ∀ d, entry.2.data = some d → d.objectId = entry.1

def Reads (tracked : List Pool) (before : Ingestion) (it : Iteration) (objs : List SuiObjectResponse) : Prop :=
  ∃ cp, it.tip = .ok cp ∧ before.lastCp < cp ∧ it.multiGetObject (tracked.map Prod.snd) = .ok objs

def changedIn (tracked : List Pool) (before : Ingestion) (objs : List SuiObjectResponse) : List PoolId :=
  (changedSince before.seen (freshVersions (tracked.zip objs))).2

/-- Nothing fails in this iteration that a mark was already set for: the first tip is not
checkpoint zero, a new checkpoint's batch is read, what changed in it decodes, and
entries that name one object are answered at one version. -/
structure Clean (sdk : Sdk) (tracked : List Pool) (before : Ingestion) (it : Iteration) : Prop where
  tip : before.lastCp = 0 → it.tip ≠ .ok 0
  read : ∀ cp, it.tip = .ok cp → before.lastCp < cp → ∃ objs, it.multiGetObject (tracked.map Prod.snd) = .ok objs
  decodes : ∀ objs, Reads tracked before it objs → ∀ entry ∈ tracked.zip objs,
    entry.1.1.poolId ∈ changedIn tracked before objs → ∃ result, Ws.decodePool sdk entry.1.1.dex entry.2 = .ok result
  alike : ∀ objs, Reads tracked before it objs → ∀ first ∈ tracked.zip objs, ∀ second ∈ tracked.zip objs,
    first.1.2 = second.1.2 → first.2.data.map (·.version) = second.2.data.map (·.version)

/-- The work that an iteration skips was done: the batch for the last checkpoint was read,
and a pool that is skipped as unchanged is cached from at least the returned version. -/
structure Lossless (sdk : Sdk) (tracked : List Pool) (before : Ingestion) (it : Iteration) (after : Ingestion) : Prop where
  idle : ∀ cp, it.tip = .ok cp → cp ≤ before.lastCp → before.lastCp ∈ before.readFor
  skipped : ∀ objs, Reads tracked before it objs → ∀ entry ∈ tracked.zip objs, ∀ d, entry.2.data = some d →
    entry.1.1.poolId ∉ changedIn tracked before objs →
    ∃ snapshot version, after.cache (sdk.renderId entry.1.2) = some snapshot ∧ snapshot.version = some version ∧
      d.version ≤ version

/-- Every mark stands for work that was done. -/
structure Honest (sdk : Sdk) (tracked : List Pool) (st : Ingestion) : Prop where
  read : st.lastCp = 0 ∨ st.lastCp ∈ st.readFor
  cached : ∀ p ∈ tracked, ∀ version, Covers st.seen p.1.poolId version →
    ∃ snapshot from_version, st.cache (sdk.renderId p.2) = some snapshot ∧ snapshot.version = some from_version ∧
      version ≤ from_version
  agree : ∀ first ∈ tracked, ∀ second ∈ tracked, first.2 = second.2 →
    ∀ version, Covers st.seen first.1.poolId version → Covers st.seen second.1.poolId version

theorem start_honest (cache : PoolId → Option PoolState) (registry : PoolId → Option LivePoolRef) :
    Honest sdk tracked (start cache registry) := by
  refine ⟨.inl rfl,?_,?_⟩
  · rintro p listed version ⟨mark,found,-⟩
    cases found
  · rintro first one second two same version ⟨mark,found,-⟩
    cases found

theorem mem_freshVersions {objs : List SuiObjectResponse} {id : PoolId} {version : U64} :
    (id,version) ∈ freshVersions (tracked.zip objs) ↔
      ∃ entry ∈ tracked.zip objs, entry.1.1.poolId = id ∧ entry.2.data.map (·.version) = some version := by
  simp only [freshVersions,List.mem_filterMap,Option.map_eq_some_iff,Prod.mk.injEq]
  constructor
  · rintro ⟨entry,listed,d,found,rfl,rfl⟩
    exact ⟨entry,listed,rfl,d,found,rfl⟩
  · rintro ⟨entry,listed,rfl,d,found,rfl⟩
    exact ⟨entry,listed,d,found,rfl,rfl⟩

theorem refreshPool_marks (sdk : Sdk) (changed : List PoolId) (st : Ingestion) (entry : Pool × SuiObjectResponse) :
    (refreshPool sdk changed st entry).seen = st.seen ∧ (refreshPool sdk changed st entry).lastCp = st.lastCp ∧
      (refreshPool sdk changed st entry).readFor = st.readFor := by
  unfold refreshPool
  dsimp only
  split
  · exact ⟨rfl,rfl,rfl⟩
  · split <;> exact ⟨rfl,rfl,rfl⟩

theorem batch_marks (sdk : Sdk) (changed : List PoolId) (answered : List (Pool × SuiObjectResponse)) (st : Ingestion) :
    (answered.foldl (refreshPool sdk changed) st).seen = st.seen ∧
      (answered.foldl (refreshPool sdk changed) st).lastCp = st.lastCp ∧
      (answered.foldl (refreshPool sdk changed) st).readFor = st.readFor := by
  induction answered generalizing st with
  | nil => exact ⟨rfl,rfl,rfl⟩
  | cons entry rest ih =>
    obtain ⟨seen,lastCp,readFor⟩ := ih (refreshPool sdk changed st entry)
    obtain ⟨seen',lastCp',readFor'⟩ := refreshPool_marks sdk changed st entry
    exact ⟨seen.trans seen',lastCp.trans lastCp',readFor.trans readFor'⟩

theorem batch_unchanged (answered : List (Pool × SuiObjectResponse)) (st : Ingestion) :
    answered.foldl (refreshPool sdk []) st = st := by
  induction answered generalizing st with
  | nil => rfl
  | cons entry rest ih =>
    rw [List.foldl_cons,ih,refreshPool]
    exact if_pos List.not_mem_nil

theorem diffOnce_reads (sdk : Sdk) {before : Ingestion} {it : Iteration} {objs : List SuiObjectResponse}
    (reads : Reads tracked before it objs) : ∃ cp, it.tip = .ok cp ∧
      diffOnce sdk tracked before it = (tracked.zip objs).foldl (refreshPool sdk (changedIn tracked before objs))
        {before with
          lastCp := cp
          seen := (changedSince before.seen (freshVersions (tracked.zip objs))).1
          readFor := cp :: before.readFor} := by
  obtain ⟨cp,tip,new,read⟩ := reads
  refine ⟨cp,tip,?_⟩
  unfold diffOnce
  simp only [tip,not_le.mpr new,if_false,read]
  split
  next nothing =>
    rw [changedIn,nothing,batch_unchanged]
  next => rfl

section answers
variable {objs : List SuiObjectResponse} (parsed : ∀ p ∈ tracked, sdk.parseId p.1.poolId = some p.2)

theorem tracked_of_zip {entry : Pool × SuiObjectResponse} (member : entry ∈ tracked.zip objs) : entry.1 ∈ tracked :=
  (List.of_mem_zip (show (entry.1,entry.2) ∈ _ from member)).1

/-- Each entry has the answer about its own object. -/
theorem zip_requested (asked : ∀ entry ∈ (tracked.map Prod.snd).zip objs, ∀ d, entry.2.data = some d →
    d.objectId = entry.1) : ∀ entry ∈ tracked.zip objs, ∀ d, entry.2.data = some d → d.objectId = entry.1.2 := by
  intro entry member d found
  refine asked (entry.1.2,entry.2) ?_ d found
  rw [List.zip_map_left]
  exact List.mem_map.mpr ⟨entry,member,rfl⟩

theorem Aligned.zip_whole {it : Iteration} (aligned : Aligned it)
    (read : it.multiGetObject (tracked.map Prod.snd) = .ok objs) : (tracked.zip objs).map Prod.fst = tracked := by
  have length := (aligned _ _ read).1
  rw [List.length_map] at length
  exact List.map_fst_zip length.ge

include parsed in
theorem same_object {first second : Pool} (one : first ∈ tracked) (two : second ∈ tracked)
    (same : first.1.poolId = second.1.poolId) : first.2 = second.2 := by
  have parses := parsed first one
  rw [same,parsed second two] at parses
  exact (Option.some.inj parses).symm

include parsed in
/-- A reading of one entry is a reading of every entry for its object. -/
theorem fresh_alike (whole : (tracked.zip objs).map Prod.fst = tracked)
    (alike : ∀ first ∈ tracked.zip objs, ∀ second ∈ tracked.zip objs, first.1.2 = second.1.2 →
      first.2.data.map (·.version) = second.2.data.map (·.version))
    {first second : Pool} (one : first ∈ tracked) (two : second ∈ tracked) (same : first.2 = second.2) {value : U64}
    (reading : (first.1.poolId,value) ∈ freshVersions (tracked.zip objs)) :
    (second.1.poolId,value) ∈ freshVersions (tracked.zip objs) := by
  obtain ⟨entry,member,text,version⟩ := mem_freshVersions.mp reading
  rw [← whole] at two
  obtain ⟨other,listed,rfl⟩ := List.mem_map.mp two
  have object : other.1.2 = entry.1.2 := same.symm.trans (same_object parsed (tracked_of_zip member) one text).symm
  refine mem_freshVersions.mpr ⟨other,listed,rfl,?_⟩
  rw [alike other listed entry member object]
  exact version

end answers

section read
variable {before after : Ingestion} {objs : List SuiObjectResponse} {p : Pool} {version : U64}
  (parsed : ∀ p ∈ tracked, sdk.parseId p.1.poolId = some p.2)
  (alike : ∀ first ∈ tracked.zip objs, ∀ second ∈ tracked.zip objs, first.1.2 = second.1.2 →
    first.2.data.map (·.version) = second.2.data.map (·.version))
  (refreshed : Refreshed sdk (changedIn tracked before objs) (tracked.zip objs) p.2 before after)
  (listed : p ∈ tracked) (covers : Covers (changedSince before.seen (freshVersions (tracked.zip objs))).1 p.1.poolId version)

include parsed alike refreshed listed covers

/-- The snapshot of a changed pool is as new as its mark. -/
theorem changed_cached (change : p.1.poolId ∈ changedIn tracked before objs) :
    ∃ snapshot from_version, after.cache (sdk.renderId p.2) = some snapshot ∧ snapshot.version = some from_version ∧
      version ≤ from_version := by
  obtain ⟨value,reading,above⟩ := mem_raised.mp change
  obtain ⟨entry,member,text,found⟩ := mem_freshVersions.mp reading
  have object := same_object parsed (tracked_of_zip member) listed text
  obtain ⟨state,cached⟩ := refreshed.touched entry member object (text ▸ change)
  refine ⟨_,value,cached,found,?_⟩
  rcases covers_advance.mp covers with before_covers | ⟨other,reading',below⟩
  · by_contra higher
    exact above (before_covers.mono (not_le.mp higher).le)
  · obtain ⟨entry',member',text',found'⟩ := mem_freshVersions.mp reading'
    have object' := same_object parsed (tracked_of_zip member') listed text'
    have one := alike entry member entry' member' (object.trans object'.symm)
    rw [found,found'] at one
    exact below.trans (Option.some.inj one).ge

/-- That of a pool which did not change was so before. -/
theorem unchanged_cached (whole : (tracked.zip objs).map Prod.fst = tracked) (honest : Honest sdk tracked before)
    (kept : p.1.poolId ∉ changedIn tracked before objs) :
    ∃ snapshot from_version, after.cache (sdk.renderId p.2) = some snapshot ∧ snapshot.version = some from_version ∧
      version ≤ from_version := by
  have untouched := refreshed.untouched fun entry member same change => by
    obtain ⟨value,reading,above⟩ := mem_raised.mp change
    have mine := fresh_alike parsed whole alike (tracked_of_zip member) listed same reading
    exact above (honest.agree p listed entry.1 (tracked_of_zip member) same.symm value (covers_of_not_raised kept mine))
  rw [untouched]
  exact honest.cached p listed version (covers_advance_of_not_raised kept covers)

end read

/-- A clean iteration that reads its batch keeps the marks honest. -/
theorem read_honest {before : Ingestion} {it : Iteration} {objs : List SuiObjectResponse}
    (injective : Function.Injective sdk.renderId) (parsed : ∀ p ∈ tracked, sdk.parseId p.1.poolId = some p.2)
    (aligned : Aligned it) (clean : Clean sdk tracked before it) (honest : Honest sdk tracked before)
    (reads : Reads tracked before it objs) : Honest sdk tracked (diffOnce sdk tracked before it) := by
  have alike := clean.alike objs reads
  obtain ⟨-,-,-,read⟩ := id reads
  have whole := aligned.zip_whole read
  obtain ⟨cp,-,after⟩ := diffOnce_reads sdk reads
  obtain ⟨seen,lastCp,readFor⟩ := batch_marks sdk (changedIn tracked before objs) (tracked.zip objs)
    {before with
      lastCp := cp
      seen := (changedSince before.seen (freshVersions (tracked.zip objs))).1
      readFor := cp :: before.readFor}
  rw [after]
  refine ⟨?_,?_,?_⟩
  · rw [lastCp,readFor]
    exact .inr List.mem_cons_self
  · intro p listed version covers
    rw [seen] at covers
    have batch := batch_refreshed
      {before with
        lastCp := cp
        seen := (changedSince before.seen (freshVersions (tracked.zip objs))).1
        readFor := cp :: before.readFor} p.2 injective (zip_requested (aligned _ _ read).2) (clean.decodes objs reads) alike
    have refreshed : Refreshed sdk _ (tracked.zip objs) p.2 before _ := ⟨batch.untouched,batch.touched⟩
    by_cases change : p.1.poolId ∈ changedIn tracked before objs
    · exact changed_cached parsed alike refreshed listed covers change
    · exact unchanged_cached parsed alike refreshed listed covers whole honest change
  · intro first one second two same version covers
    rw [seen] at covers ⊢
    rcases covers_advance.mp covers with here | ⟨value,reading,below⟩
    · exact covers_advance.mpr (.inl (honest.agree first one second two same version here))
    · exact covers_advance.mpr (.inr ⟨value,fresh_alike parsed whole alike one two same reading,below⟩)

theorem diffOnce_cases (sdk : Sdk) (tracked : List Pool) (before : Ingestion) (it : Iteration) :
    (∃ objs, Reads tracked before it objs) ∨ diffOnce sdk tracked before it = before ∨
      ∃ cp fault, it.tip = .ok cp ∧ before.lastCp < cp ∧ it.multiGetObject (tracked.map Prod.snd) = .error fault ∧
        diffOnce sdk tracked before it = {before with lastCp := cp} := by
  unfold diffOnce
  cases tip : it.tip with
  | error fault => exact .inr (.inl rfl)
  | ok cp =>
    dsimp only
    by_cases old : cp ≤ before.lastCp
    · rw [if_pos old]
      exact .inr (.inl rfl)
    · rw [if_neg old]
      have new := not_le.mp old
      cases read : it.multiGetObject (tracked.map Prod.snd) with
      | error fault => exact .inr (.inr ⟨cp,fault,rfl,new,rfl,rfl⟩)
      | ok objs => exact .inl ⟨objs,cp,tip,new,read⟩

theorem iterate_honest {before after : Ingestion} {it : Iteration}
    (injective : Function.Injective sdk.renderId) (parsed : ∀ p ∈ tracked, sdk.parseId p.1.poolId = some p.2)
    (aligned : Aligned it) (clean : Clean sdk tracked before it) (honest : Honest sdk tracked before)
    (moved : iterate sdk tracked before it = .ok after) : Honest sdk tracked after := by
  obtain rfl := Except.ok.inj moved
  rcases diffOnce_cases sdk tracked before it with ⟨objs,reads⟩ | idle | ⟨cp,fault,tip,new,failed,-⟩
  · exact read_honest injective parsed aligned clean honest reads
  · rw [idle]
    exact honest
  · obtain ⟨objs,read⟩ := clean.read cp tip new
    cases failed.symm.trans read

/-- A skipped pool's version is under its mark, and the mark is honest after the step. -/
theorem honest_lossless {before after : Ingestion} {it : Iteration} (clean : Clean sdk tracked before it)
    (honest : Honest sdk tracked before) (kept : Honest sdk tracked after)
    (moved : iterate sdk tracked before it = .ok after) : Lossless sdk tracked before it after := by
  obtain rfl := Except.ok.inj moved
  constructor
  · intro cp tip old
    rcases honest.read with zero | read
    · rw [zero] at old
      exact absurd (Fin.le_zero_iff.mp old ▸ tip) (clean.tip zero)
    · exact read
  · intro objs reads entry member d found skipped
    have reading : (entry.1.1.poolId,d.version) ∈ freshVersions (tracked.zip objs) :=
      mem_freshVersions.mpr ⟨entry,member,rfl,by rw [found]; rfl⟩
    have listed : entry.1 ∈ tracked := tracked_of_zip member
    obtain ⟨cp,-,ran⟩ := diffOnce_reads sdk reads
    apply kept.cached entry.1 listed d.version
    rw [ran,(batch_marks sdk _ _ _).1]
    exact covers_advance.mpr (.inr ⟨d.version,reading,le_rfl⟩)

/-- The function runs the iterations one after the other. -/
theorem runCheckpointDiff_ok {entries : List String} {cache : PoolId → Option PoolState}
    {registry : PoolId → Option LivePoolRef} {iterations : List Iteration} (parsed : track sdk entries = .ok tracked)
    (some_tracked : tracked ≠ []) : ∃ final, runCheckpointDiff sdk entries cache registry iterations = .ok final ∧
      transact (iterate sdk tracked) (start cache registry) iterations = .ok final := by
  refine ⟨iterations.foldl (diffOnce sdk tracked) (start cache registry),?_,?_⟩
  · rw [runCheckpointDiff,parsed,ok_bind,if_neg some_tracked,pure_eq_ok]
  · generalize start cache registry = st
    induction iterations generalizing st with
    | nil => rfl
    | cons it rest ih => rw [transact_cons,iterate,ok_bind,ih,List.foldl_cons]

theorem track_parsed {entries : List String} (parsed : track sdk entries = .ok tracked) :
    ∀ p ∈ tracked, sdk.parseId p.1.poolId = some p.2 := by
  intro p listed
  obtain ⟨entry_list,-,mapped⟩ := bind_ok.mp parsed
  obtain ⟨t,-,ran⟩ := mapM_mem mapped listed
  obtain ⟨id,found,made⟩ := bind_ok.mp ran
  obtain rfl := pure_ok.mp made
  exact orBail_ok.mp found

end runs

/-- In every run whose iterations are all clean, no skipped work was owed. -/
theorem ingest_lossless (sdk : Sdk) (entries : List String) (tracked : List Pool) (cache : PoolId → Option PoolState)
    (registry : PoolId → Option LivePoolRef) (iterations : List Iteration)
    (canonical : ∀ oid, sdk.parseId (sdk.renderId oid) = some oid) (parsed : track sdk entries = .ok tracked)
    (aligned : ∀ it ∈ iterations, Aligned it)
    (clean : ∀ before it after, Takes (iterate sdk tracked) (start cache registry) iterations before it after →
      Clean sdk tracked before it) :
    ∀ before it after, Takes (iterate sdk tracked) (start cache registry) iterations before it after →
      Lossless sdk tracked before it after := by
  have injective : Function.Injective sdk.renderId := by
    intro one other same
    exact Option.some.inj ((canonical one).symm.trans (same ▸ canonical other))
  have kept (before : Ingestion) (it : Iteration) (after : Ingestion)
      (taken : Takes (iterate sdk tracked) (start cache registry) iterations before it after)
      (honest : Honest sdk tracked before) : Honest sdk tracked after :=
    iterate_honest injective (track_parsed parsed) (aligned it (taken.mem _)) (clean before it after taken) honest
      (taken.moved _)
  intro before it after taken
  have honest : Honest sdk tracked before := takes_kept _ (Honest sdk tracked) (start_honest cache registry) kept taken
  exact honest_lossless (clean before it after taken) honest (kept before it after taken honest) (taken.moved _)

namespace Watched

def sdk : Sdk := ⟨some,fun oid => oid,.ok⟩

def pool : String := "0x00000000000000000000000000000000000000000000000000000000000000a1"

def object (version : U64) (oid : ObjectId) : SuiObjectResponse :=
  ⟨some ⟨oid,version,some "0xcc::pool::Pool<0x2::sui::SUI, 0x5::usdc::USDC>",some (.moveObject (.object
    [("current_sqrt_price",.text "18446744073709551616"),("liquidity",.text "1000000"),("fee_rate",.text "2500")]))⟩⟩

def tracked : List Pool := [(⟨.cetus,pool⟩,pool)]

def answers (version : U64) (oids : List ObjectId) : Anyhow (List SuiObjectResponse) := .ok (oids.map (object version))

/-- A new pool, its next version, and a stale answer after that. -/
def iterations : List Iteration := [⟨.ok 5,answers 7⟩,⟨.ok 6,answers 9⟩,⟨.ok 8,answers 7⟩]

theorem tracked_eq : track sdk ["cetus:" ++ pool] = .ok tracked := by decide +kernel

theorem answers_aligned (tip : Anyhow U64) (version : U64) : Aligned ⟨tip,answers version⟩ := by
  intro ids objs answered
  obtain rfl := Except.ok.inj answered
  refine ⟨List.length_map _,?_⟩
  intro entry member d found
  rw [← List.map_id ids,List.map_map,List.zip_map'] at member
  obtain ⟨oid,-,rfl⟩ := List.mem_map.mp member
  obtain rfl := Option.some.inj found
  rfl

theorem object_decodes (version : U64) : ∃ result, Ws.decodePool sdk .cetus (object version pool) = .ok result := by
  have same : Ws.decodePool sdk .cetus (object version pool) = Ws.decodePool sdk .cetus (object 0 pool) := rfl
  have decoded : (Ws.decodePool sdk .cetus (object 0 pool)).isOk = true := by decide +kernel
  rw [same]
  exact exists_ok decoded

theorem answers_clean (before : Ingestion) {cp : U64} (version : U64) (later : cp ≠ 0) :
    Clean sdk tracked before ⟨.ok cp,answers version⟩ := by
  have answered {objs : List SuiObjectResponse} (reads : Reads tracked before ⟨.ok cp,answers version⟩ objs) :
      objs = [object version pool] := by
    obtain ⟨-,-,-,read⟩ := reads
    exact (Except.ok.inj read).symm
  refine ⟨fun _ tip => later (Except.ok.inj tip),fun _ _ _ => ⟨_,rfl⟩,?_,?_⟩
  · intro objs reads entry member _
    obtain rfl := answered reads
    obtain rfl := List.mem_singleton.mp member
    exact object_decodes version
  · intro objs reads first one second two _
    obtain rfl := answered reads
    rw [List.mem_singleton.mp one,List.mem_singleton.mp two]

theorem ingest_lossless_stale : track sdk ["cetus:" ++ pool] = .ok tracked ∧ ∀ before it after,
    Takes (iterate sdk tracked) (start (fun _ => none) fun _ => none) iterations before it after →
      Lossless sdk tracked before it after := by
  refine ⟨tracked_eq,ingest_lossless sdk ["cetus:" ++ pool] tracked (fun _ => none) (fun _ => none) iterations
    (fun _ => rfl) tracked_eq ?_ ?_⟩
  · simp only [iterations,List.forall_mem_cons]
    exact ⟨answers_aligned _ _,answers_aligned _ _,answers_aligned _ _,List.forall_mem_nil _⟩
  · intro before it after taken
    have listed := taken.mem
    simp only [iterations,List.mem_cons,List.not_mem_nil,or_false] at listed
    rcases listed with rfl | rfl | rfl
    · exact answers_clean before 7 (by decide)
    · exact answers_clean before 9 (by decide)
    · exact answers_clean before 7 (by decide)

/-- The batch for a new checkpoint fails, and the same tip is met again. -/
def failedRead : List Iteration := [⟨.ok 5,fun _ => bail "429"⟩,⟨.ok 5,answers 7⟩]

theorem ingest_lossy : ¬ ∀ before it after,
    Takes (iterate sdk tracked) (start (fun _ => none) fun _ => none) failedRead before it after →
      Lossless sdk tracked before it after := by
  intro lossless
  have taken : Takes (iterate sdk tracked) (start (fun _ => none) fun _ => none) failedRead
      {start (fun _ => none) (fun _ => none) with lastCp := 5} ⟨.ok 5,answers 7⟩
      {start (fun _ => none) (fun _ => none) with lastCp := 5} :=
    ⟨[⟨.ok 5,fun _ => bail "429"⟩],[],rfl,rfl,rfl⟩
  have read := (lossless _ _ _ taken).idle 5 rfl le_rfl
  cases read

end Watched

end SuiArbitrage.Rust.Ingest
