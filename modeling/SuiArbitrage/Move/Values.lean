import SuiArbitrage.Move.Transaction

/-! How commands reach the values of earlier results: what taking, storing and
pushing do to the places of a machine. -/
namespace SuiArbitrage.Move
open MachineWord Fallible Executor

/-- The command whose result an argument is. -/
def Argument.command : Argument → Option ℕ
  | .result i => some i
  | .nestedResult i _ => some i
  | _ => none

namespace Machine

theorem slot_command {m : Machine} {argument : Argument} {i j : ℕ} (here : m.slot argument = some (i,j)) :
    argument.command = some i := by
  cases argument with
  | result k =>
    simp only [slot] at here
    split at here
    · obtain ⟨rfl,-⟩ := Prod.mk.inj (Option.some.inj here)
      rfl
    · cases here
  | nestedResult k l =>
    obtain ⟨rfl,-⟩ := Prod.mk.inj (Option.some.inj here)
    rfl
  | gasCoin => cases here
  | pure value => cases here
  | object object => cases here

theorem cell_setCell (m : Machine) (i j k l : ℕ) (value : Option Value) :
    (m.setCell i j value).cell k l = if i = k ∧ j = l ∧ (m.results[i]?.bind (·[j]?)).isSome then value else m.cell k l := by
  simp only [cell,setCell,List.getElem?_modify]
  by_cases row : i = k
  · subst row
    cases found : m.results[i]? with
    | none => simp
    | some cells =>
      by_cases column : j = l
      · subst column
        cases inside : cells[j]? with
        | none =>
          have outside : (cells.set j value)[j]? = none := by simpa using List.getElem?_eq_none_iff.mp inside
          simp [outside,inside]
        | some old =>
          have bound := (List.getElem?_eq_some_iff.mp inside).1
          simp [bound]
      · simp [column]
  · simp [row]

theorem slot_store (m : Machine) (written argument : Argument) (value : Option Value) :
    (m.store written value).slot argument = m.slot argument := by
  unfold store
  split
  · cases argument with
    | result k =>
      simp only [slot,setCell,List.getElem?_modify]
      split
      · simp [Option.map_map,Function.comp_def]
      · simp
    | _ => rfl
  · rfl

theorem take_ok {m after : Machine} {argument : Argument} {value : Value} :
    m.take argument = .ok (after,value) ↔ m.peek argument = some value ∧ after = m.store argument none := by
  unfold take
  split
  · rename_i other here
    rw [here,Except.ok.injEq,Prod.mk.injEq,Option.some.injEq,eq_comm (a := after),and_comm]
  · rename_i absent
    simp [absent]

theorem takeCoin_ok {m after : Machine} {T : TypeTag} {argument : Argument} {coin : Coin T} :
    m.takeCoin T argument = .ok (after,coin) ↔
      m.peek argument = some (.coin T coin.value) ∧ after = m.store argument none := by
  simp only [takeCoin,bind_ok,Prod.exists,take_ok]
  constructor
  · rintro ⟨m',value,⟨here,rfl⟩,typed⟩
    split at typed
    · rename_i m'' T' amount same
      obtain ⟨rfl,rfl⟩ := Prod.mk.inj same
      split at typed
      · rename_i sameType
        obtain ⟨rfl,rfl⟩ := Prod.mk.inj (Except.ok.inj typed)
        exact ⟨sameType ▸ here,rfl⟩
      · cases typed
    · cases typed
  · rintro ⟨here,rfl⟩
    exact ⟨_,_,⟨here,rfl⟩,by simp⟩

theorem takeArbReceipt_ok {m after : Machine} {argument : Argument} {receipt : ArbReceipt} :
    m.takeArbReceipt argument = .ok (after,receipt) ↔
      m.peek argument = some (.arbReceipt receipt) ∧ after = m.store argument none := by
  simp only [takeArbReceipt,bind_ok,Prod.exists,take_ok]
  constructor
  · rintro ⟨m',value,⟨here,rfl⟩,typed⟩
    split at typed
    · rename_i m'' receipt' same
      obtain ⟨rfl,rfl⟩ := Prod.mk.inj same
      obtain ⟨rfl,rfl⟩ := Prod.mk.inj (Except.ok.inj typed)
      exact ⟨here,rfl⟩
    · cases typed
  · rintro ⟨here,rfl⟩
    exact ⟨_,_,⟨here,rfl⟩,rfl⟩

theorem takeFlashReceipt_ok {m after : Machine} {argument : Argument} {receipt : Flash.FlashReceipt} :
    m.takeFlashReceipt argument = .ok (after,receipt) ↔
      m.peek argument = some (.flashReceipt receipt) ∧ after = m.store argument none := by
  simp only [takeFlashReceipt,bind_ok,Prod.exists,take_ok]
  constructor
  · rintro ⟨m',value,⟨here,rfl⟩,typed⟩
    split at typed
    · rename_i m'' receipt' same
      obtain ⟨rfl,rfl⟩ := Prod.mk.inj same
      obtain ⟨rfl,rfl⟩ := Prod.mk.inj (Except.ok.inj typed)
      exact ⟨here,rfl⟩
    · cases typed
  · rintro ⟨here,rfl⟩
    exact ⟨_,_,⟨here,rfl⟩,rfl⟩

theorem length_push (m : Machine) (row : List Value) : (m.push row).results.length = m.results.length + 1 := by
  simp [push]

section last
variable {m : Machine} {rows : List (List (Option Value))} {value : Option Value}

theorem slot_last (results : m.results = rows ++ [[value]]) :
    m.slot (.result rows.length) = some (rows.length,0) := by
  simp [slot,results]

theorem peek_last (results : m.results = rows ++ [[value]]) : m.peek (.result rows.length) = value := by
  rw [peek,slot_last results]
  simp [cell,results]

theorem store_last (results : m.results = rows ++ [[value]]) (new : Option Value) :
    (m.store (.result rows.length) new).results = rows ++ [[new]] := by
  rw [store,slot_last results]
  simp [setCell,results,List.modify_eq_take_cons_drop]

end last

end Machine

section step
variable {chain : Chain} {m after : Machine}

theorem step_moveCall {c : MoveCall} :
    m.step chain (.moveCall c) = .ok after ↔ ∃ middle row, m.invoke chain c = .ok (middle,row) ∧ middle.push row = after := by
  simp only [Machine.step,bind_ok,Prod.exists,pure_ok]

end step

end SuiArbitrage.Move
