import SuiArbitrage.Lib.LatestRead
import SuiArbitrage.Rust.ObligationIndex

/-! The upkeep of the obligation index, from the pages of the bootstrap through any number of
reconcile cycles: what it holds of an obligation, in every run. -/
namespace SuiArbitrage.Rust.Liquidation
open MachineWord Fallible
open LatestRead (latest absorb absorb_latest latest_eq_some)
open Move (ObjectId)

/-- An event of the module, and what the node shows of its obligation at that time. -/
structure Opened where
  parsedJson : Json
  reads : ObligationReads

def openedId (parsedJson : Json) : Option String := (parsedJson.get "obligation").bind Json.asStr

/-- The answers to the page queries of the bootstrap, in turn. -/
inductive EventReads
  | failed (chain : List String)
  | last (data : List Opened)
  | page (data : List Opened) (next : EventReads)

/-- One cycle of `run`: the newest events, and a read of each obligation. The map lists its
keys in some order. -/
structure Cycle where
  opened : Reply (List Opened)
  order : List String
  reads : String → ObligationReads

/-- The index, and for the proofs a log of all reads of obligations. -/
structure Indexing where
  index : ObligationIndex
  log : List (String × ObligationReads)

def Indexing.start : Indexing := ⟨fun _ => none,[]⟩

section upkeep
variable (sdk : Sdk)

def Indexing.refresh (s : Indexing) (id : String) (reads : ObligationReads) : Indexing :=
  ⟨(refreshObligation sdk reads id s.index).2,s.log ++ [(id,reads)]⟩

def seed (s : Indexing) (ev : Opened) : Indexing :=
  match openedId ev.parsedJson with
  | some id => s.refresh sdk id ev.reads
  | none => s

def bootstrap : EventReads → Indexing → Reply Unit × Indexing
  | .failed chain,s => (.error chain,s)
  | .last data,s => (.ok (),data.foldl (seed sdk) s)
  | .page data next,s => bootstrap next (data.foldl (seed sdk) s)

def discover (s : Indexing) (ev : Opened) : Indexing :=
  match openedId ev.parsedJson with
  | some id => if (s.index id).isSome then s else s.refresh sdk id ev.reads
  | none => s

def Indexing.keys (s : Indexing) (order : List String) : List String := order.filter fun id => (s.index id).isSome

def Cycle.discovered (c : Cycle) (s : Indexing) : Indexing :=
  match c.opened with
  | .ok data => data.foldl (discover sdk) s
  | .error _ => s

def cycle (s : Indexing) (c : Cycle) : Indexing :=
  let s := c.discovered sdk s
  (s.keys c.order).foldl (fun s id => s.refresh sdk id (c.reads id)) s

/-- The task of the index: its cycles begin also where the bootstrap fails. -/
def maintain (boot : EventReads) (cycles : List Cycle) : Indexing :=
  cycles.foldl (cycle sdk) (bootstrap sdk boot .start).2

def decoded (entry : String × ObligationReads) : String × Option Obligation :=
  (entry.1,(decodeObligation sdk entry.2 entry.1).toOption)

end upkeep

def EventReads.events : EventReads → List Opened
  | .failed _ => []
  | .last data => data
  | .page data next => data ++ next.events

def Cycle.events (c : Cycle) : List Opened := c.opened.toOption.getD []

/-- An event of the run names the obligation. -/
def Announced (boot : EventReads) (cycles : List Cycle) (id : String) : Prop :=
  ∃ ev ∈ boot.events ++ cycles.flatMap Cycle.events, openedId ev.parsedJson = some id

section runs
variable {sdk : Sdk} {Known : String → Prop} {s : Indexing} {id : String} {reads : ObligationReads}

theorem refresh_index : (s.refresh sdk id reads).index = absorb s.index (decoded sdk (id,reads)) := by
  unfold Indexing.refresh refreshObligation decoded absorb
  cases decodeObligation sdk reads id with
  | error chain => rfl
  | ok ob => rfl

theorem refresh_self : (s.refresh sdk id reads).index id = (decodeObligation sdk reads id).toOption.or (s.index id) := by
  rw [refresh_index,absorb,decoded]
  cases decodeObligation sdk reads id with
  | error chain => rfl
  | ok ob => exact Function.update_self id (some ob) s.index

theorem refresh_other {other : String} (apart : other ≠ id) : (s.refresh sdk id reads).index other = s.index other := by
  rw [refresh_index,absorb,decoded]
  cases decodeObligation sdk reads id with
  | error chain => rfl
  | ok ob => exact Function.update_of_ne apart (some ob) s.index

/-- The index is what the log tells of these obligations. -/
structure Kept (sdk : Sdk) (Known : String → Prop) (s : Indexing) : Prop where
  index : s.index = latest (s.log.map (decoded sdk))
  known : ∀ entry ∈ s.log, Known entry.1

theorem Kept.refresh (kept : Kept sdk Known s) (known : Known id) : Kept sdk Known (s.refresh sdk id reads) := by
  refine ⟨?_,?_⟩
  · rw [refresh_index,kept.index,absorb_latest,Indexing.refresh,List.map_append]
    rfl
  · intro entry member
    rcases List.mem_append.mp member with before | here
    · exact kept.known entry before
    · exact List.mem_singleton.mp here ▸ known

/-- What is indexed has been read. -/
theorem Kept.of_isSome (kept : Kept sdk Known s) (indexed : (s.index id).isSome) : Known id := by
  obtain ⟨ob,found⟩ := Option.isSome_iff_exists.mp indexed
  rw [kept.index] at found
  obtain ⟨before,after,split,-⟩ := latest_eq_some.mp found
  have member : (id,some ob) ∈ s.log.map (decoded sdk) := split ▸ List.mem_append_right _ List.mem_cons_self
  obtain ⟨entry,logged,same⟩ := List.mem_map.mp member
  obtain rfl : entry.1 = id := congrArg Prod.fst same
  exact kept.known entry logged

theorem Kept.foldl {α : Type} {step : Indexing → α → Indexing} {items : List α}
    (each : ∀ item ∈ items, ∀ t, Kept sdk Known t → Kept sdk Known (step t item)) (kept : Kept sdk Known s) :
    Kept sdk Known (items.foldl step s) := by
  induction items generalizing s with
  | nil => exact kept
  | cons item rest ih =>
    exact ih (fun later member => each later (List.mem_cons_of_mem _ member)) (each item List.mem_cons_self s kept)

theorem Kept.seed {ev : Opened} (kept : Kept sdk Known s) (known : ∀ id, openedId ev.parsedJson = some id → Known id) :
    Kept sdk Known (seed sdk s ev) := by
  unfold Liquidation.seed
  split
  next id named => exact kept.refresh (known id named)
  next => exact kept

theorem Kept.discover {ev : Opened} (kept : Kept sdk Known s) (known : ∀ id, openedId ev.parsedJson = some id → Known id) :
    Kept sdk Known (discover sdk s ev) := by
  unfold Liquidation.discover
  split
  next id named =>
    split
    · exact kept
    · exact kept.refresh (known id named)
  next => exact kept

theorem Kept.bootstrap {boot : EventReads} (kept : Kept sdk Known s)
    (known : ∀ ev ∈ boot.events, ∀ id, openedId ev.parsedJson = some id → Known id) : Kept sdk Known (bootstrap sdk boot s).2 := by
  induction boot generalizing s with
  | failed chain => exact kept
  | last data => exact Kept.foldl (fun ev member t kept => kept.seed (known ev member)) kept
  | page data next ih =>
    refine ih (Kept.foldl (fun ev member t kept => kept.seed (known ev ?_)) kept) fun ev member => known ev ?_
    · exact List.mem_append_left _ member
    · exact List.mem_append_right _ member

theorem Kept.cycle {c : Cycle} (kept : Kept sdk Known s)
    (known : ∀ ev ∈ c.events, ∀ id, openedId ev.parsedJson = some id → Known id) : Kept sdk Known (cycle sdk s c) := by
  have discovered : Kept sdk Known (c.discovered sdk s) := by
    unfold Cycle.discovered
    unfold Cycle.events at known
    cases opened : c.opened with
    | error chain => exact kept
    | ok data =>
      rw [opened] at known
      exact Kept.foldl (fun ev member t kept => kept.discover (known ev member)) kept
  refine Kept.foldl (fun id member t kept => kept.refresh ?_) discovered
  exact discovered.of_isSome (List.mem_filter.mp member).2

theorem maintain_kept (sdk : Sdk) (boot : EventReads) (cycles : List Cycle) :
    Kept sdk (Announced boot cycles) (maintain sdk boot cycles) := by
  have started : Kept sdk (Announced boot cycles) .start := ⟨rfl,List.forall_mem_nil _⟩
  refine Kept.foldl (fun c member t kept => kept.cycle fun ev here id named => ?_)
    (started.bootstrap fun ev member id named => ⟨ev,List.mem_append_left _ member,named⟩)
  exact ⟨ev,List.mem_append_right _ (List.mem_flatMap.mpr ⟨c,member,here⟩),named⟩

/-- The first event of the cycle that names the obligation and whose read succeeds. -/
def Cycle.opening (sdk : Sdk) (c : Cycle) (id : String) : Option Obligation :=
  c.events.findSome? fun ev => if openedId ev.parsedJson = some id then (decodeObligation sdk ev.reads id).toOption else none

theorem discover_index {ev : Opened} : (discover sdk s ev).index id =
    (s.index id).or (if openedId ev.parsedJson = some id then (decodeObligation sdk ev.reads id).toOption else none) := by
  unfold discover
  cases named : openedId ev.parsedJson with
  | none => simp
  | some other =>
    by_cases here : other = id
    · subst here
      rw [if_pos rfl]
      cases found : s.index other with
      | some ob => simp [found]
      | none => simp [refresh_self,found]
    · rw [if_neg fun same => here (Option.some.inj same),Option.or_none]
      dsimp only
      split
      · rfl
      · exact refresh_other (Ne.symm here)

theorem discovered_index {c : Cycle} : (c.discovered sdk s).index id = (s.index id).or (c.opening sdk id) := by
  unfold Cycle.discovered Cycle.opening Cycle.events
  cases c.opened with
  | error chain => exact (Option.or_none).symm
  | ok data =>
    change (data.foldl (discover sdk) s).index id = (s.index id).or (data.findSome? _)
    induction data generalizing s with
    | nil => exact (Option.or_none).symm
    | cons ev rest ih =>
      rw [List.foldl_cons,ih,discover_index,List.findSome?_cons,Option.or_assoc]
      cases (if openedId ev.parsedJson = some id then (decodeObligation sdk ev.reads id).toOption else none) with
      | none => rw [Option.none_or]
      | some ob => rw [Option.some_or]

theorem reconciled_index {ids : List String} {reads : String → ObligationReads} :
    (ids.foldl (fun s id => s.refresh sdk id (reads id)) s).index id =
      if id ∈ ids then (decodeObligation sdk (reads id) id).toOption.or (s.index id) else s.index id := by
  induction ids generalizing s with
  | nil => rfl
  | cons first rest ih =>
    rw [List.foldl_cons,ih]
    by_cases here : id = first
    · subst here
      rw [if_pos List.mem_cons_self,refresh_self,← Option.or_assoc,Option.or_self,ite_self]
    · rw [refresh_other here]
      simp [here]

/-- What a cycle makes of an entry: it is there before or is opened now, and the read of this
cycle replaces it unless it fails. -/
theorem cycle_index {c : Cycle} (listed : id ∈ c.order) : (cycle sdk s c).index id =
    ((s.index id).or (c.opening sdk id)).map fun ob => (decodeObligation sdk (c.reads id) id).toOption.getD ob := by
  have among : id ∈ (c.discovered sdk s).keys c.order ↔ ((c.discovered sdk s).index id).isSome = true := by
    rw [Indexing.keys,List.mem_filter,and_iff_right listed]
  unfold cycle
  rw [reconciled_index,← discovered_index]
  cases found : (c.discovered sdk s).index id with
  | none =>
    rw [found] at among
    rw [if_neg fun member => Bool.noConfusion (among.mp member)]
    rfl
  | some ob =>
    rw [found] at among
    rw [if_pos (among.mpr rfl),Option.map_some]
    cases (decodeObligation sdk (c.reads id) id).toOption with
    | none => rfl
    | some newer => rfl

variable (sdk) in
/-- The last read of the log that succeeded for this obligation has found it so. -/
def LastFound (log : List (String × ObligationReads)) (id : String) (ob : Obligation) : Prop :=
  ∃ before reads after, log = before ++ (id,reads) :: after ∧ decodeObligation sdk reads id = .ok ob ∧
    ∀ later ∈ after, later.1 = id → ∃ chain, decodeObligation sdk later.2 id = .error chain

theorem Kept.lastFound (kept : Kept sdk Known s) {ob : Obligation} : s.index id = some ob ↔ LastFound sdk s.log id ob := by
  rw [kept.index,latest_eq_some]
  constructor
  · intro found
    obtain ⟨before,after,split,failed⟩ := found
    obtain ⟨earlier,rest,logged,-,split⟩ := List.map_eq_append_iff.mp split
    obtain ⟨entry,later,rfl,same,rfl⟩ := List.map_eq_cons_iff.mp split
    obtain ⟨key,reads⟩ := entry
    obtain rfl : key = id := congrArg Prod.fst same
    refine ⟨earlier,reads,later,logged,toOption_some.mp (congrArg Prod.snd same),fun other member named => ?_⟩
    have missed := failed _ (List.mem_map_of_mem member) named
    subst named
    apply not_ok_iff.mp
    intro returns
    obtain ⟨value,read⟩ := returns
    simp [decoded,read,Except.toOption] at missed
  · intro told
    obtain ⟨before,reads,after,logged,found,failed⟩ := told
    refine ⟨before.map (decoded sdk),after.map (decoded sdk),?_,?_⟩
    · rw [logged,List.map_append,List.map_cons,decoded,found]
      rfl
    · intro read member named
      obtain ⟨other,listed,rfl⟩ := List.mem_map.mp member
      have named : other.1 = id := named
      obtain ⟨chain,missed⟩ := failed other listed named
      rw [decoded,named,missed]
      rfl

/-- In every run the index tells of an obligation what its last successful read has found, and
of none that no event has named. Another cycle drops nothing: it may add what was opened, and
reads every entry again. -/
theorem maintain_tells (sdk : Sdk) (boot : EventReads) (cycles : List Cycle) (id : String) :
    (∀ ob, (maintain sdk boot cycles).index id = some ob ↔ LastFound sdk (maintain sdk boot cycles).log id ob) ∧
    (∀ entry ∈ (maintain sdk boot cycles).log, Announced boot cycles entry.1) ∧
    ∀ c : Cycle, id ∈ c.order → (maintain sdk boot (cycles ++ [c])).index id =
      (((maintain sdk boot cycles).index id).or (c.opening sdk id)).map
        fun ob => (decodeObligation sdk (c.reads id) id).toOption.getD ob := by
  have kept := maintain_kept sdk boot cycles
  refine ⟨fun ob => kept.lastFound,kept.known,fun c listed => ?_⟩
  have last : maintain sdk boot (cycles ++ [c]) = cycle sdk (maintain sdk boot cycles) c := by
    rw [maintain,List.foldl_append]
    rfl
  rw [last,cycle_index listed]

end runs

/-! An obligation that is opened while the node is slow. -/
namespace Forgets

def opening : Opened := ⟨.object [("obligation",.text "0xb")],good⟩

def unread : ObligationReads := ⟨fun _ => .error ["timeout"],fun _ => .last [],fun _ => .last []⟩

/-- The bootstrap cannot read it, a cycle discovers it, and the next one fails to read it again. -/
def slow : List Cycle := [⟨.ok [opening],["0xb"],fun _ => unread⟩,⟨.error ["timeout"],["0xb"],fun _ => unread⟩]

theorem maintain_tells_slow :
    (maintain sdk (.failed ["timeout"]) slow).index "0xb" = some ⟨"0xb",.scallop,[suiHeld],[usdcOwed]⟩ ∧
    LastFound sdk (maintain sdk (.failed ["timeout"]) slow).log "0xb" ⟨"0xb",.scallop,[suiHeld],[usdcOwed]⟩ ∧
    (maintain sdk (.failed ["timeout"]) (slow ++ [⟨.ok [],["0xb"],fun _ => failing⟩])).index "0xb" =
      some ⟨"0xb",.scallop,[],[usdcOwed]⟩ := by
  have held : (maintain sdk (.failed ["timeout"]) slow).index "0xb" = some ⟨"0xb",.scallop,[suiHeld],[usdcOwed]⟩ := by
    decide +kernel
  obtain ⟨tells,-,onward⟩ := maintain_tells sdk (.failed ["timeout"]) slow "0xb"
  refine ⟨held,(tells _).mp held,(onward ⟨.ok [],["0xb"],fun _ => failing⟩ List.mem_cons_self).trans ?_⟩
  rw [held]
  decide +kernel

end Forgets

end SuiArbitrage.Rust.Liquidation
