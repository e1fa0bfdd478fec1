import SuiArbitrage.Rust.Blacklist
import SuiArbitrage.Rust.Cycles
import SuiArbitrage.Rust.Ingest

/-! The three loops that fill the cache and the registry with the tracked pools. The cache
is keyed by the id that the library renders, the registry by the text of the configuration. -/
namespace SuiArbitrage.Rust.Ws
open Fallible Ingest
open Move (ObjectId)

abbrev MultiGet := List ObjectId → Anyhow (List SuiObjectResponse)

section loops
variable (sdk : Sdk)

def upsertPool (st : Ingestion) (answered : Pool × SuiObjectResponse) : Ingestion :=
  match decodePool sdk answered.1.1.dex answered.2 with
  | .ok (state,lref) =>
    {st with
      cache := Function.update st.cache state.id (some ⟨state,answered.2.data.map (·.version)⟩)
      registry := Function.update st.registry answered.1.1.poolId (some lref)}
  | .error _ => st

def bootstrapPools (entries : List String) (multiGetObject : MultiGet) (st : Ingestion) : Anyhow Ingestion := do
  let tracked ← track sdk entries
  if tracked = [] then
    return st
  let objs ← multiGetObject (tracked.map Prod.snd)
  return (tracked.zip objs).foldl (upsertPool sdk) st

/-- One round of the loop of `ws::run`. -/
def pollOnce (tracked : List Pool) (multiGetObject : MultiGet) (st : Ingestion) : Ingestion :=
  match multiGetObject (tracked.map Prod.snd) with
  | .error _ => st
  | .ok objs => (tracked.zip objs).foldl (upsertPool sdk) st

end loops

end SuiArbitrage.Rust.Ws

namespace SuiArbitrage.Rust.Ingest
open MachineWord Fallible Scanner Ws
open Move (ObjectId)

inductive Activity
  | bootstrap (multiGetObject : MultiGet)
  | poll (multiGetObject : MultiGet)
  | diff (it : Iteration)

def Activity.reads : Activity → MultiGet
  | .bootstrap multiGetObject => multiGetObject
  | .poll multiGetObject => multiGetObject
  | .diff it => it.multiGetObject

section loops
variable (sdk : Sdk) (entries : List String) (tracked : List Pool)

/-- One activity as a step of a run. A bootstrap that fails leaves the maps as they are. -/
def ingestStep (st : Ingestion) : Activity → Rust Ingestion
  | .bootstrap multiGetObject => .ok ((bootstrapPools sdk entries multiGetObject st).toOption.getD st)
  | .poll multiGetObject => .ok (pollOnce sdk tracked multiGetObject st)
  | .diff it => .ok (diffOnce sdk tracked st it)

/-- The answers that the activity decodes: all of them, or those of a new checkpoint whose version advanced. -/
def handled (st : Ingestion) (activity : Activity) : List (Pool × SuiObjectResponse) :=
  match activity.reads (tracked.map Prod.snd) with
  | .error _ => []
  | .ok objs =>
    match activity with
    | .diff it =>
      match it.tip with
      | .error _ => []
      | .ok cp =>
        if cp ≤ st.lastCp then []
        else (tracked.zip objs).filter fun entry => entry.1.1.poolId ∈ changedIn tracked st objs
    | _ => tracked.zip objs

def Decodes (entry : Pool × SuiObjectResponse) : Prop := ∃ result, decodePool sdk entry.1.1.dex entry.2 = .ok result

/-- A pool is written whose id is not spelled as the library renders it. -/
def Misspells (st : Ingestion) (activity : Activity) : Prop :=
  ∃ entry ∈ handled tracked st activity, Decodes sdk entry ∧ entry.1.1.poolId ≠ sdk.renderId entry.1.2

end loops

/-- What a step adds to the keys of the two maps. -/
structure Written (sdk : Sdk) (answered : List (Pool × SuiObjectResponse)) (before after : Ingestion) : Prop where
  cached : ∀ key, (after.cache key).isSome ↔
    (before.cache key).isSome ∨ ∃ entry ∈ answered, Decodes sdk entry ∧ key = sdk.renderId entry.1.2
  registered : ∀ key, (after.registry key).isSome ↔
    (before.registry key).isSome ∨ ∃ entry ∈ answered, Decodes sdk entry ∧ key = entry.1.1.poolId

section written
variable {sdk : Sdk} {answered : List (Pool × SuiObjectResponse)} {before middle after : Ingestion}

theorem Written.same (cache : after.cache = before.cache) (registry : after.registry = before.registry) :
    Written sdk [] before after := by
  constructor
  · simp [cache]
  · simp [registry]

theorem Written.cons {entry : Pool × SuiObjectResponse} (first : Written sdk [entry] before middle)
    (rest : Written sdk answered middle after) : Written sdk (entry :: answered) before after := by
  constructor
  · intro key
    rw [rest.cached,first.cached]
    simp only [List.mem_cons,List.not_mem_nil,or_false,exists_eq_left,exists_eq_or_imp,or_assoc]
  · intro key
    rw [rest.registered,first.registered]
    simp only [List.mem_cons,List.not_mem_nil,or_false,exists_eq_left,exists_eq_or_imp,or_assoc]

theorem Written.start (written : Written sdk answered middle after) (cache : middle.cache = before.cache)
    (registry : middle.registry = before.registry) : Written sdk answered before after :=
  ⟨cache ▸ written.cached,registry ▸ written.registered⟩

theorem upsertPool_written {entry : Pool × SuiObjectResponse} (st : Ingestion)
    (requested : ∀ d, entry.2.data = some d → d.objectId = entry.1.2) :
    Written sdk [entry] st (upsertPool sdk st entry) := by
  unfold upsertPool
  cases decoded : decodePool sdk entry.1.1.dex entry.2 with
  | error fault =>
    have fails : ¬ Decodes sdk entry := by
      intro ⟨result,ran⟩
      cases decoded.symm.trans ran
    constructor <;> simp [fails]
  | ok result =>
    obtain ⟨state,lref⟩ := result
    have decodes : Decodes sdk entry := ⟨_,decoded⟩
    obtain ⟨d,found,key⟩ := decodePool_id decoded
    rw [requested d found] at key
    constructor
    · intro other
      by_cases same : other = state.id
      · simp [same,decodes,key]
      · simp [decodes,← key,same]
    · intro other
      by_cases same : other = entry.1.1.poolId
      · simp [same,decodes]
      · simp [decodes,same]

theorem foldl_written (st : Ingestion) (requested : ∀ entry ∈ answered, ∀ d, entry.2.data = some d → d.objectId = entry.1.2) :
    Written sdk answered st (answered.foldl (upsertPool sdk) st) := by
  induction answered generalizing st with
  | nil => exact .same rfl rfl
  | cons entry rest ih =>
    refine (upsertPool_written st (requested entry List.mem_cons_self)).cons (ih _ fun later member => ?_)
    exact requested later (List.mem_cons_of_mem _ member)

theorem refreshPool_eq (changed : List PoolId) (st : Ingestion) (entry : Pool × SuiObjectResponse) :
    refreshPool sdk changed st entry = if entry.1.1.poolId ∈ changed then upsertPool sdk st entry else st := by
  by_cases listed : entry.1.1.poolId ∈ changed
  · rw [if_pos listed]
    exact if_neg (not_not.mpr listed)
  · rw [if_neg listed]
    exact if_pos listed

theorem foldl_refreshPool (changed : List PoolId) (st : Ingestion) :
    answered.foldl (refreshPool sdk changed) st =
      (answered.filter fun entry => entry.1.1.poolId ∈ changed).foldl (upsertPool sdk) st := by
  rw [List.foldl_filter]
  refine List.foldl_ext _ _ _ fun st entry _ => ?_
  rw [refreshPool_eq]
  simp only [decide_eq_true_eq]

end written

section step
variable {sdk : Sdk} {entries : List String} {tracked : List Pool} {before after : Ingestion} {activity : Activity}

/-- The node answers about the objects that it is asked for. -/
def Activity.Faithful (activity : Activity) : Prop :=
  ∀ ids objs, activity.reads ids = .ok objs → ∀ entry ∈ ids.zip objs, ∀ d, entry.2.data = some d → d.objectId = entry.1

theorem handled_zip (st : Ingestion) (activity : Activity) {entry : Pool × SuiObjectResponse}
    (member : entry ∈ handled tracked st activity) :
    ∃ objs, activity.reads (tracked.map Prod.snd) = .ok objs ∧ entry ∈ tracked.zip objs := by
  unfold handled at member
  split at member
  next => cases member
  next objs read =>
    refine ⟨objs,read,?_⟩
    split at member
    next it =>
      split at member
      next => cases member
      next cp tip =>
        split at member
        · cases member
        · exact List.mem_of_mem_filter member
    next => exact member

theorem bootstrapPools_poll (parsed : track sdk entries = .ok tracked) (multiGetObject : MultiGet) (st : Ingestion) :
    (bootstrapPools sdk entries multiGetObject st).toOption.getD st = pollOnce sdk tracked multiGetObject st := by
  rw [bootstrapPools,parsed,ok_bind,pollOnce]
  split
  · rename_i empty
    subst empty
    cases multiGetObject (([] : List Pool).map Prod.snd) with
    | error fault => rfl
    | ok objs => rfl
  · cases multiGetObject (tracked.map Prod.snd) with
    | error fault => rfl
    | ok objs => rfl

theorem pollOnce_written {multiGetObject : MultiGet} (faithful : (Activity.poll multiGetObject).Faithful) :
    Written sdk (handled tracked before (.poll multiGetObject)) before (pollOnce sdk tracked multiGetObject before) := by
  simp only [handled,pollOnce,Activity.reads]
  cases read : multiGetObject (tracked.map Prod.snd) with
  | error fault => exact .same rfl rfl
  | ok objs => exact foldl_written _ (zip_requested (faithful _ _ read))

theorem diffOnce_written {it : Iteration} (faithful : (Activity.diff it).Faithful) :
    Written sdk (handled tracked before (.diff it)) before (diffOnce sdk tracked before it) := by
  cases read : it.multiGetObject (tracked.map Prod.snd) with
  | error fault =>
    simp only [handled,Activity.reads,read]
    rcases diffOnce_cases sdk tracked before it with ⟨objs,-,-,-,answered⟩ | idle | ⟨cp,-,-,-,-,skipped⟩
    · cases read.symm.trans answered
    · rw [idle]
      exact .same rfl rfl
    · rw [skipped]
      exact .same rfl rfl
  | ok objs =>
    cases tip : it.tip with
    | error fault =>
      simp only [handled,Activity.reads,read,diffOnce,tip]
      exact .same rfl rfl
    | ok cp =>
      by_cases old : cp ≤ before.lastCp
      · simp only [handled,Activity.reads,read,diffOnce,tip,if_pos old]
        exact .same rfl rfl
      · obtain ⟨cp',-,ran⟩ := diffOnce_reads sdk ⟨cp,tip,not_le.mp old,read⟩
        rw [ran,foldl_refreshPool]
        simp only [handled,Activity.reads,read,tip,if_neg old]
        refine (foldl_written _ fun entry member => ?_).start rfl rfl
        exact zip_requested (faithful _ _ read) entry (List.mem_of_mem_filter member)

theorem ingestStep_written (parsed : track sdk entries = .ok tracked) (faithful : activity.Faithful)
    (ran : ingestStep sdk entries tracked before activity = .ok after) :
    Written sdk (handled tracked before activity) before after := by
  cases activity with
  | bootstrap multiGetObject =>
    obtain rfl := Except.ok.inj ran
    rw [bootstrapPools_poll parsed]
    exact pollOnce_written faithful
  | poll multiGetObject =>
    obtain rfl := Except.ok.inj ran
    exact pollOnce_written faithful
  | diff it =>
    obtain rfl := Except.ok.inj ran
    exact diffOnce_written faithful

/-- Every cached pool is in the registry under its own id, and nothing else is. -/
structure Joined (st : Ingestion) : Prop where
  keys : ∀ key, (st.registry key).isSome = (st.cache key).isSome
  lookup : ∀ pools : List PoolState, (∀ pool ∈ pools, (st.cache pool.id).isSome) → ∀ base maxHops,
    ∀ route ∈ findCycles (buildAdjacency pools) base maxHops, ∀ hop ∈ route, (st.registry hop.poolId).isSome

theorem joined_iff {st : Ingestion} : Joined st ↔ ∀ key, (st.registry key).isSome = (st.cache key).isSome := by
  refine ⟨Joined.keys,fun keys => ⟨keys,?_⟩⟩
  intro pools cached base maxHops route found hop member
  obtain ⟨pool,listed,⟨same,-⟩,-⟩ := (mem_findCycles.mp found).2 hop member
  rw [same,keys]
  exact cached pool listed

/-- The cache holds tracked pools only, under the ids that the library renders. -/
def Rendered (sdk : Sdk) (tracked : List Pool) (st : Ingestion) : Prop :=
  ∀ key, (st.cache key).isSome → ∃ p ∈ tracked, key = sdk.renderId p.2

theorem handled_tracked {entry : Pool × SuiObjectResponse} (member : entry ∈ handled tracked before activity) :
    entry.1 ∈ tracked := by
  obtain ⟨objs,-,zipped⟩ := handled_zip before activity member
  exact tracked_of_zip zipped

theorem Written.rendered (written : Written sdk (handled tracked before activity) before after)
    (rendered : Rendered sdk tracked before) : Rendered sdk tracked after := by
  intro key present
  rcases (written.cached key).mp present with old | ⟨entry,member,-,same⟩
  · exact rendered key old
  · exact ⟨entry.1,handled_tracked member,same⟩

/-- A step keeps the two maps joined exactly where it misspells no id. -/
theorem Written.joined_iff (written : Written sdk (handled tracked before activity) before after)
    (parsed : ∀ p ∈ tracked, sdk.parseId p.1.poolId = some p.2)
    (canonical : ∀ p ∈ tracked, sdk.parseId (sdk.renderId p.2) = some p.2) (rendered : Rendered sdk tracked before)
    (joined : Joined before) : Joined after ↔ ¬ Misspells sdk tracked before activity := by
  rw [Ingest.joined_iff]
  constructor
  · intro keys ⟨entry,member,decodes,misspelled⟩
    have listed := handled_tracked member
    have registered := (written.registered entry.1.1.poolId).mpr (.inr ⟨entry,member,decodes,rfl⟩)
    rw [keys] at registered
    obtain ⟨p,other,same⟩ := written.rendered rendered _ registered
    have parses := parsed entry.1 listed
    rw [same,canonical p other] at parses
    exact misspelled (same.trans (congrArg sdk.renderId (Option.some.inj parses)))
  · intro spelled key
    have canonicalKey {entry : Pool × SuiObjectResponse} (member : entry ∈ handled tracked before activity)
        (decodes : Decodes sdk entry) : entry.1.1.poolId = sdk.renderId entry.1.2 :=
      not_not.mp fun misspelled => spelled ⟨entry,member,decodes,misspelled⟩
    rw [Bool.eq_iff_iff,written.registered,written.cached,joined.keys]
    refine or_congr_right (exists_congr fun entry => and_congr_right fun member => and_congr_right fun decodes => ?_)
    rw [canonicalKey member decodes]

end step

/-- In a run from empty maps, the registry has exactly the keys of the cache after every
step if and only if no step writes a pool whose configured id is not the rendered one. -/
theorem tracked_joined_iff (sdk : Sdk) (entries : List String) (tracked : List Pool) (activities : List Activity)
    (parsed : track sdk entries = .ok tracked) (canonical : ∀ p ∈ tracked, sdk.parseId (sdk.renderId p.2) = some p.2)
    (faithful : ∀ activity ∈ activities, activity.Faithful) :
    (∀ before activity after, Takes (ingestStep sdk entries tracked) (start (fun _ => none) fun _ => none) activities
        before activity after → Joined after) ↔
      ∀ before activity after, Takes (ingestStep sdk entries tracked) (start (fun _ => none) fun _ => none) activities
        before activity after → ¬ Misspells sdk tracked before activity := by
  refine takes_good_iff _ (Rendered sdk tracked) ?_ ?_ ?_ ?_
  · intro key present
    cases present
  · exact joined_iff.mpr fun key => rfl
  · intro before activity after listed rendered ran
    exact (ingestStep_written parsed (faithful activity listed) ran).rendered rendered
  · intro before activity after listed rendered joined ran
    exact (ingestStep_written parsed (faithful activity listed) ran).joined_iff (track_parsed parsed) canonical rendered joined

namespace Watched

theorem answers_faithful (version : U64) : (Activity.bootstrap (answers version)).Faithful :=
  fun ids objs answered => (answers_aligned (.ok 0) version ids objs answered).2

def activities : List Activity := [.bootstrap (answers 7),.poll (answers 8),.diff ⟨.ok 5,answers 9⟩]

theorem activities_faithful : ∀ activity ∈ activities, activity.Faithful := by
  simp only [activities,List.forall_mem_cons]
  exact ⟨answers_faithful 7,answers_faithful 8,answers_faithful 9,List.forall_mem_nil _⟩

/-- With the id in its rendered spelling, each of the three loops leaves the maps joined. -/
theorem tracked_joined_rendered : activities.length = 3 ∧ ∀ before activity after,
    Takes (ingestStep Spelling.sdk ["cetus:" ++ pool] tracked) (start (fun _ => none) fun _ => none) activities
      before activity after → Joined after := by
  have parsed : track Spelling.sdk ["cetus:" ++ pool] = .ok tracked := by decide +kernel
  have canonical : ∀ p ∈ tracked, Spelling.sdk.parseId (Spelling.sdk.renderId p.2) = some p.2 := by decide +kernel
  refine ⟨rfl,(tracked_joined_iff Spelling.sdk _ tracked activities parsed canonical activities_faithful).mpr ?_⟩
  intro before activity after taken misspells
  obtain ⟨entry,member,-,misspelled⟩ := misspells
  have listed := List.mem_singleton.mp (handled_tracked member)
  rw [listed] at misspelled
  exact misspelled rfl

/-- With a shorter one, the pool is cached under one key and registered under another. -/
theorem tracked_unjoined : ¬ ∀ (sdk : Sdk) (entries : List String) (tracked : List Pool) (activities : List Activity),
    track sdk entries = .ok tracked → (∀ p ∈ tracked, sdk.parseId (sdk.renderId p.2) = some p.2) →
      (∀ activity ∈ activities, activity.Faithful) →
      ∀ before activity after, Takes (ingestStep sdk entries tracked) (start (fun _ => none) fun _ => none) activities
        before activity after → Joined after := by
  intro claimed
  have parsed : track Spelling.sdk ["cetus:0xA1"] = .ok [(⟨.cetus,"0xA1"⟩,pool)] := by decide +kernel
  have canonical : ∀ p ∈ [((⟨.cetus,"0xA1"⟩,pool) : Pool)], Spelling.sdk.parseId (Spelling.sdk.renderId p.2) = some p.2 := by
    decide +kernel
  have taken : Takes (ingestStep Spelling.sdk ["cetus:0xA1"] [(⟨.cetus,"0xA1"⟩,pool)]) (start (fun _ => none) fun _ => none)
      [.bootstrap (answers 7)] _ _ _ := ⟨[],[],rfl,rfl,rfl⟩
  have joined := claimed _ _ _ _ parsed canonical (by simp [answers_faithful]) _ _ _ taken
  have missing := joined.keys pool
  exact absurd missing (by decide +kernel)

end Watched

end SuiArbitrage.Rust.Ingest
