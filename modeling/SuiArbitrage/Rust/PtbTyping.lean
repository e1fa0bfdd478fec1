import SuiArbitrage.Move.Typing
import SuiArbitrage.Rust.Cycles
import SuiArbitrage.Rust.Executor
import SuiArbitrage.Rust.FlashArb

/-! The blocks of the three builders are linear and well typed. Between two swaps a block
holds one coin, of the token that the next hop takes, beside its receipts. -/
namespace SuiArbitrage.Rust.Ptb
open MachineWord Fallible Scanner Flashloan LinearContext Builder
open Move (TypeTag ObjectId ObjectArg Argument Command Kind Packages Env Slot Typed SettlesFirst)
open Executor (LivePoolRef resolveHop)

/-- A live reference of the pool that a hop goes through; `tag` parses a token. -/
structure References (tag : TokenId → TypeTag) (hop : Hop) (lref : LivePoolRef) : Prop where
  dex : lref.dex = hop.dex
  source : tag hop.tokenIn = if hop.aToB then lref.typeA else lref.typeB
  target : tag hop.tokenOut = if hop.aToB then lref.typeB else lref.typeA
  fee : lref.feeType.isSome ↔ hop.dex = .turbos

def Resolves (tag : TokenId → TypeTag) (hop : Hop) (resolved : ResolvedHop) : Prop :=
  ∃ lref minOut cetusCfg turbosVer, References tag hop lref ∧
    resolved = resolveHop lref hop.aToB minOut cetusCfg turbosVer

section swaps
variable {tag : TokenId → TypeTag} {packages : Packages} {env : Env} {hop : Hop} {resolved : ResolvedHop}
  {coin : Argument} {arguments : List Argument} {place : ℕ × ℕ}

/-- Whatever the venue and the direction, an adapter takes the coin of the hop's first token
and returns one of its second. -/
theorem swap_typed (packages : Packages) (resolves : Resolves tag hop resolved) (given : swapArguments resolved coin = .ok arguments)
    (there : env.slot coin = some (place,.coin (tag hop.tokenIn))) :
    packages.typed env (.moveCall ⟨packages.arbitrage,adapterModule hop.dex,adapterFunction hop.aToB,resolved.typeArgs,arguments⟩) =
      some ⟨[(place,.coin (tag hop.tokenIn))],[],[.coin (tag hop.tokenOut)]⟩ := by
  obtain ⟨⟨dex,poolId,typeA,typeB,feeType⟩,minOut,cetusCfg,turbosVer,references,rfl⟩ := resolves
  obtain ⟨venue,source,target,fee⟩ := references
  obtain ⟨hopPool,hopDex,tokenIn,tokenOut,aToB⟩ := hop
  subst venue
  rw [source] at there ⊢
  rw [target]
  cases dex with
  | ammV2 =>
    have bare : feeType = none := by simpa using fee
    subst bare
    obtain rfl := Except.ok.inj given
    cases aToB <;> simp_all [Packages.typed,Packages.signature,Packages.pairFunction,adapterModule,adapterFunction,Move.accepts,
      Move.Parameter.accepts,resolveHop]
  | cetus =>
    have bare : feeType = none := by simpa using fee
    subst bare
    cases cetusCfg with
    | none => cases given
    | some config =>
      obtain rfl := Except.ok.inj given
      cases aToB <;> simp_all [Packages.typed,Packages.signature,Packages.pairFunction,adapterModule,adapterFunction,Move.accepts,
        Move.Parameter.accepts,resolveHop]
  | turbos =>
    obtain ⟨feeType,rfl⟩ := Option.isSome_iff_exists.mp (fee.mpr rfl)
    cases turbosVer with
    | none => cases given
    | some versioned =>
      obtain rfl := Except.ok.inj given
      cases aToB <;> simp_all [Packages.typed,Packages.signature,Packages.feeFunction,adapterModule,adapterFunction,Move.accepts,
        Move.Parameter.accepts,resolveHop]

theorem lowerSwap_ok {package : ObjectId} {commands after : List Command} {last : Argument}
    (ran : (lowerSwap package coin (.swap (adapterCall hop).1 (adapterCall hop).2 hop.poolId 0,resolved)).run commands =
      .ok (last,after)) :
    ∃ arguments, swapArguments resolved coin = .ok arguments ∧ last = .result commands.length ∧
      after = commands ++ [.moveCall
        ⟨package,adapterModule hop.dex,adapterFunction hop.aToB,resolved.typeArgs,arguments⟩] := by
  simp only [lowerSwap,run_bind,run_lift,Builder.call,run_command] at ran
  obtain ⟨arguments,_,⟨given,rfl⟩,module,_,⟨named,rfl⟩,function,_,⟨named',rfl⟩,rfl,rfl⟩ := ran
  rw [adapterCall,identifier_adapter] at named
  rw [adapterCall,identifier_function] at named'
  obtain rfl := Except.ok.inj named
  obtain rfl := Except.ok.inj named'
  exact ⟨arguments,given,rfl,rfl⟩

theorem adapter_quiet (package : ObjectId) (dex : Dex) (function : String) (typeArguments : List TypeTag)
    (arguments : List Argument) :
    (Command.moveCall ⟨package,adapterModule dex,function,typeArguments,arguments⟩).repays = false := by
  cases dex <;> simp [Command.repays,Command.callsOneOf,adapterModule]

/-- The swaps of a linked route turn the coin of its first token into one of its last. -/
theorem swaps_checked {route : List Hop} {hops : List ResolvedHop} {start final : TokenId}
    (resolves : List.Forall₂ (Resolves tag) route hops) (linked : Linked start route final)
    {commands after : List Command} {last : Argument} (sized : env.length = commands.length)
    (there : env.slot coin = some (place,.coin (tag start)))
    (ran : (((pushSwaps route).zip hops).foldlM (lowerSwap packages.arbitrage) coin).run commands = .ok (last,after)) :
    ∃ swaps rows out, after = commands ++ swaps ∧ (∀ c ∈ swaps, c.repays = false) ∧
      packages.Checks env {(place,.coin (tag start))} swaps rows {(out,.coin (tag final))} ∧
      Env.slot (env ++ rows) last = some (out,.coin (tag final)) := by
  induction resolves generalizing start env coin place commands with
  | nil =>
    obtain rfl : start = final := linked
    simp only [pushSwaps,List.map_nil,List.zip_nil_left,List.foldlM_nil] at ran
    cases ran
    refine ⟨[],[],place,(List.append_nil _).symm,?_,Move.checks_nil _ _,?_⟩
    · intro _ absent
      cases absent
    · rw [List.append_nil]
      exact there
  | @cons hop resolved route hops here _ ih =>
    obtain ⟨rfl,linked⟩ := linked
    rw [show pushSwaps (hop :: route) =
      .swap (adapterCall hop).1 (adapterCall hop).2 hop.poolId 0 :: pushSwaps route from rfl,
      List.zip_cons_cons,List.foldlM_cons,run_bind] at ran
    obtain ⟨next,middle,swapped,ran⟩ := ran
    obtain ⟨arguments,given,rfl,rfl⟩ := lowerSwap_ok swapped
    have typed := swap_typed packages here given there
    have returned : Env.slot (env ++ [[Kind.coin (tag hop.tokenOut)]]) (.result commands.length) =
        some ((env.length,0),.coin (tag hop.tokenOut)) := by
      simp [Env.slot,← sized]
    have longer : (env ++ [[Kind.coin (tag hop.tokenOut)]]).length = (commands ++ [Command.moveCall
        ⟨packages.arbitrage,adapterModule hop.dex,adapterFunction hop.aToB,resolved.typeArgs,arguments⟩]).length := by
      simp [sized]
    obtain ⟨swaps,rows,out,rfl,quiet,checks,found⟩ := ih linked longer returned ran
    refine ⟨_ :: swaps,_ :: rows,out,?_,?_,Move.checks_cons typed ?_ checks,?_⟩
    · simp
    · intro c member
      rcases List.mem_cons.mp member with rfl | later
      · exact adapter_quiet packages.arbitrage hop.dex _ _ _
      · exact quiet c later
    · exact apply_eq_some.mpr ⟨0,by rfl,by rfl,by rfl⟩
    · simpa using found

end swaps

section endings
variable {packages : Packages} {env rows : Env} {T : TypeTag} {after frame : Multiset Slot} {commands : List Command}
  {receipt coin loan : Argument} {place held : ℕ × ℕ}

theorem begin_checked (minProfit : U64) (there : env.slot coin = some (place,.coin T))
    (checks : packages.Checks (env ++ [[.coin T,.arbReceipt]])
      ({((env.length,0),.coin T)} + ({((env.length,1),.arbReceipt)} + frame)) commands rows after) :
    packages.Checks env ({(place,.coin T)} + frame)
      (.moveCall ⟨packages.arbitrage,"executor","begin",[T],[coin,.pure (.u64 minProfit)]⟩ :: commands)
      ([.coin T,.arbReceipt] :: rows) after := by
  have typed : packages.typed env (.moveCall ⟨packages.arbitrage,"executor","begin",[T],[coin,.pure (.u64 minProfit)]⟩) =
      some ⟨[(place,.coin T)],[],[.coin T,.arbReceipt]⟩ := by
    simp [Packages.typed,Packages.signature,Packages.coinFunction,Move.accepts,Move.Parameter.accepts,there]
  rw [← add_assoc] at checks
  exact Move.checks_step frame typed rfl (Multiset.zero_le _) checks

theorem settle_checked (opened : env.slot receipt = some (held,.arbReceipt)) (there : env.slot coin = some (place,.coin T))
    (checks : packages.Checks (env ++ [[.coin T]]) ({((env.length,0),.coin T)} + frame) commands rows after) :
    packages.Checks env ({(place,.coin T)} + ({(held,.arbReceipt)} + frame))
      (.moveCall ⟨packages.arbitrage,"executor","settle_and_return",[T],[receipt,coin]⟩ :: commands) ([.coin T] :: rows) after := by
  have typed : packages.typed env (.moveCall ⟨packages.arbitrage,"executor","settle_and_return",[T],[receipt,coin]⟩) =
      some ⟨[(held,.arbReceipt),(place,.coin T)],[],[.coin T]⟩ := by
    simp [Packages.typed,Packages.signature,Packages.coinFunction,Move.accepts,Move.Parameter.accepts,opened,there]
  refine Move.checks_step frame typed ?_ (Multiset.zero_le _) checks
  rw [← add_assoc]
  exact congrArg (· + frame) (add_comm _ _)

/-- The vault takes the proceeds and its receipt; its change goes to the sender. -/
theorem vault_repaid (lender : ObjectArg) (sender : Move.Address) (lent : env.slot loan = some (held,.flashReceipt))
    (there : env.slot coin = some (place,.coin T)) :
    packages.Checks env ({(place,.coin T)} + {(held,.flashReceipt)})
      [.moveCall ⟨packages.lender,"flash","repay",[T],[.object lender,loan,coin]⟩,
        .transferObjects [.result env.length] (.pure (.address sender))] [[.coin T],[]] 0 := by
  have typed : packages.typed env (.moveCall ⟨packages.lender,"flash","repay",[T],[.object lender,loan,coin]⟩) =
      some ⟨[(held,.flashReceipt),(place,.coin T)],[],[.coin T]⟩ := by
    simp [Packages.typed,Packages.signature,Packages.coinFunction,Move.accepts,Move.Parameter.accepts,lent,there]
  have moved : packages.typed (env ++ [[.coin T]]) (.transferObjects [.result env.length] (.pure (.address sender))) =
      some ⟨[((env.length,0),.coin T)],[],[]⟩ := by
    simp [Packages.typed,Move.isAddress,Move.coin_of_slot (Move.slot_last env (.coin T))]
  refine Move.checks_step 0 typed ?_ (Multiset.zero_le _) ?_
  · rw [add_zero]
    exact add_comm _ _
  · exact Move.checks_step 0 moved rfl (Multiset.zero_le _) (Move.checks_nil _ _)

/-- The other lender takes a coin that is split off the proceeds; the rest goes to the sender. -/
theorem loan_repaid (version market : ObjectArg) (owed : U64) (sender : Move.Address)
    (lent : env.slot loan = some (held,.flashLoan T)) (there : env.slot coin = some (place,.coin T)) (value : coin ≠ .gasCoin)
    {n : ℕ} (here : env.length = n) :
    packages.Checks env ({(place,.coin T)} + {(held,.flashLoan T)})
      [.splitCoins coin [.pure (.u64 owed)],
        .moveCall ⟨packages.lender,"flash_loan","repay_flash_loan",[T],
          [.object version,.object market,.nestedResult n 0,loan]⟩,
        .transferObjects [coin] (.pure (.address sender))] [[.coin T],[],[]] 0 := by
  subst here
  have split : packages.typed env (.splitCoins coin [.pure (.u64 owed)]) = some ⟨[],[(place,.coin T)],[.coin T]⟩ := by
    simp [Packages.typed,Move.isU64,value,Move.coin_of_slot there]
  have parted : Env.slot (env ++ [[.coin T]]) (.nestedResult env.length 0) = some ((env.length,0),.coin T) := by
    simp [Env.slot]
  have typed : packages.typed (env ++ [[.coin T]]) (.moveCall ⟨packages.lender,"flash_loan","repay_flash_loan",[T],
      [.object version,.object market,.nestedResult env.length 0,loan]⟩) =
      some ⟨[((env.length,0),.coin T),(held,.flashLoan T)],[],[]⟩ := by
    simp [Packages.typed,Packages.signature,Packages.coinFunction,Move.accepts,Move.Parameter.accepts,parted,
      Move.Env.slot_append lent]
  have moved : packages.typed (env ++ [[.coin T]] ++ [[]]) (.transferObjects [coin] (.pure (.address sender))) =
      some ⟨[(place,.coin T)],[],[]⟩ := by
    simp [Packages.typed,Move.isAddress,Move.coin_of_slot (Move.Env.slot_append there _)]
  refine Move.checks_step ({(place,.coin T)} + {(held,.flashLoan T)}) split (zero_add _).symm ?_ ?_
  · exact Multiset.le_add_right _ _
  · refine Move.checks_step {(place,.coin T)} typed ?_ (Multiset.zero_le _) ?_
    · change ({((env.length,0),.coin T)} + ({(place,.coin T)} + {(held,.flashLoan T)}) : Multiset Slot) =
        {((env.length,0),.coin T)} + {(held,.flashLoan T)} + {(place,.coin T)}
      rw [add_assoc]
      exact congrArg (_ + ·) (add_comm _ _)
    · exact Move.checks_step 0 moved rfl (Multiset.zero_le _) (Move.checks_nil _ _)

end endings

section builders
variable {tag : TokenId → TypeTag} {pools : List PoolState} {base : TokenId} {maxHops : ℕ} {opp : Opportunity}

/-- What is claimed of a block: types, linearity and the order of its two gates. -/
structure Assembled (packages : Packages) (commands : List Command) : Prop where
  typed : packages.WellTyped commands
  settlesFirst : SettlesFirst commands

/-- What a lender gives beside the coin. -/
def loanKind (T : TypeTag) : FlashStyle → Kind
  | .mockVault => .flashReceipt
  | .scallop => .flashLoan T

section flash
variable {packages : Packages} {inputs : BuildInputs} {env : Env} {commands after : List Command} {result : Argument}

theorem flashBorrow_typed (lender : packages.lender = inputs.providerPackage)
    (ran : (flashBorrow inputs).run [] = .ok (result,after)) :
    ∃ borrow, result = .result 0 ∧ after = [borrow] ∧ borrow.repays = false ∧
      packages.typed [] borrow = some ⟨[],[],[.coin inputs.baseType,loanKind inputs.baseType inputs.flashStyle]⟩ := by
  unfold flashBorrow at ran
  rw [← lender] at ran
  cases style : inputs.flashStyle with
  | mockVault =>
    simp only [style,call,run_command] at ran
    obtain ⟨rfl,rfl⟩ := ran
    refine ⟨_,rfl,rfl,rfl,?_⟩
    simp [Packages.typed,Packages.signature,Packages.coinFunction,Move.accepts,Move.Parameter.accepts,loanKind]
  | scallop =>
    simp only [style,call,run_bind,run_lift,run_command] at ran
    obtain ⟨version,_,⟨-,rfl⟩,rfl,rfl⟩ := ran
    refine ⟨_,rfl,rfl,rfl,?_⟩
    simp [Packages.typed,Packages.signature,Packages.coinFunction,Move.accepts,Move.Parameter.accepts,loanKind,
      ScallopPins.flashModule,ScallopPins.borrowFn]

theorem flashRepay_typed (lender : packages.lender = inputs.providerPackage) {receipt proceeds : Argument} {place held : ℕ × ℕ}
    (lent : env.slot receipt = some (held,loanKind inputs.baseType inputs.flashStyle))
    (there : env.slot proceeds = some (place,.coin inputs.baseType)) (sized : env.length = commands.length)
    (ran : (flashRepay inputs receipt proceeds).run commands = .ok (result,after)) :
    ∃ closing rows, after = commands ++ closing ∧
      packages.Checks env ({(place,.coin inputs.baseType)} + {(held,loanKind inputs.baseType inputs.flashStyle)}) closing rows 0 := by
  unfold flashRepay at ran
  rw [← lender] at ran
  cases style : inputs.flashStyle with
  | mockVault =>
    rw [style] at lent
    simp only [style,call,run_bind,run_command] at ran
    obtain ⟨change,_,⟨rfl,rfl⟩,-,rfl⟩ := ran
    rw [← sized]
    exact ⟨_,_,List.append_assoc _ _ _,vault_repaid inputs.lender inputs.sender lent there⟩
  | scallop =>
    rw [style] at lent
    simp only [style,call,run_bind,run_lift,run_command] at ran
    obtain ⟨owed,_,⟨rfl,rfl⟩,version,_,⟨-,rfl⟩,_,_,⟨-,rfl⟩,-,rfl⟩ := ran
    have value : proceeds ≠ .gasCoin := by
      intro gas
      rw [gas] at there
      cases there
    refine ⟨_,_,?_,loan_repaid version inputs.lender inputs.repayTotal inputs.sender lent there value sized⟩
    rw [List.append_assoc,List.append_assoc]
    rfl

end flash

section session
variable {packages : Packages} {env : Env} {input last : Argument} {place : ℕ × ℕ} {hops : List ResolvedHop}
  {before after : List Command}

/-- The session that a builder opens, with the swaps of a cycle in it. -/
structure Session (packages : Packages) (env : Env) (input : Argument) (place : ℕ × ℕ) (T : TypeTag) (minProfit : U64)
    (last : Argument) (swaps : List Command) (rows : Env) (out : ℕ × ℕ) : Prop where
  quiet : ∀ c ∈ swaps, c.repays = false
  checks : ∀ frame, packages.Checks env ({(place,.coin T)} + frame)
    (.moveCall ⟨packages.arbitrage,"executor","begin",[T],[input,.pure (.u64 minProfit)]⟩ :: swaps)
    ([.coin T,.arbReceipt] :: rows) ({(out,.coin T)} + ({((env.length,1),.arbReceipt)} + frame))
  last : Env.slot (env ++ [.coin T,.arbReceipt] :: rows) last = some (out,.coin T)
  receipt : Env.slot (env ++ [.coin T,.arbReceipt] :: rows) (.nestedResult env.length 1) =
    some ((env.length,1),.arbReceipt)

/-- What comes before the settlement repays nothing. -/
theorem Session.opening {T : TypeTag} {minProfit : U64} {swaps : List Command} {rows : Env} {out : ℕ × ℕ}
    (session : Session packages env input place T minProfit last swaps rows out) {first begun : Command}
    (firstQuiet : first.repays = false) (begunQuiet : begun.repays = false) :
    ∀ c ∈ first :: begun :: swaps, c.repays = false := by
  intro c member
  rcases List.mem_cons.mp member with rfl | member
  · exact firstQuiet
  · rcases List.mem_cons.mp member with rfl | member
    · exact begunQuiet
    · exact session.quiet c member

theorem session_ok (linked : Linked base opp.route base) (resolves : List.Forall₂ (Resolves tag) opp.route hops)
    {T : TypeTag} (baseType : T = tag base) (minProfit : U64) (sized : env.length = before.length)
    (there : env.slot input = some (place,.coin T))
    (ran : (((pushSwaps opp.route).zip hops).foldlM (lowerSwap packages.arbitrage) (nested (.result before.length) 0)).run
      (before ++ [.moveCall ⟨packages.arbitrage,"executor","begin",[T],[input,.pure (.u64 minProfit)]⟩]) =
      .ok (last,after)) :
    ∃ swaps rows out, after = before ++
        .moveCall ⟨packages.arbitrage,"executor","begin",[T],[input,.pure (.u64 minProfit)]⟩ :: swaps ∧
      rows.length = swaps.length ∧ Session packages env input place T minProfit last swaps rows out := by
  obtain ⟨begun,receipt⟩ := Move.slot_pair env (.coin T) .arbReceipt
  have opened : Env.slot (env ++ [[.coin T,.arbReceipt]]) (nested (.result before.length) 0) =
      some ((env.length,0),.coin (tag base)) := by
    rw [← sized,← baseType]
    exact begun
  obtain ⟨swaps,rows,out,rfl,quiet,checks,found⟩ := swaps_checked resolves linked (by simp [sized]) opened ran
  rw [← baseType] at checks found
  refine ⟨swaps,rows,out,by simp,checks.length,quiet,fun frame => ?_,?_,?_⟩
  · exact begin_checked minProfit there (checks.frame ({((env.length,1),.arbReceipt)} + frame))
  · simpa using found
  · simpa using Move.Env.slot_append receipt rows

end session

/-- The flash builder, with either lender. -/
theorem build_assembled {provider : FlashLoanProvider} {inputs : BuildInputs} {minProfit : U64} {commands : List Command}
    (linked : Linked base opp.route base) (resolves : List.Forall₂ (Resolves tag) opp.route inputs.hops)
    (baseType : inputs.baseType = tag base) (packages : Packages) (arbitrage : packages.arbitrage = inputs.package)
    (lender : packages.lender = inputs.providerPackage)
    (built : build (flashArbPlan provider opp minProfit) inputs = .ok commands) : Assembled packages commands := by
  have counted : (pushSwaps opp.route).length = inputs.hops.length := by simp [pushSwaps,resolves.length_eq]
  simp only [build,finish_ok,run_bind,call,run_command,lowerSwaps,flashArbPlan_swaps,counted,if_true] at built
  rw [← arbitrage] at built
  obtain ⟨_,_,_,borrowed,_,_,⟨rfl,rfl⟩,coin,_,ran,_,_,⟨rfl,rfl⟩,closed⟩ := built
  obtain ⟨borrow,rfl,rfl,quietBorrow,borrowTyped⟩ := flashBorrow_typed lender borrowed
  let env : Env := [[.coin inputs.baseType,loanKind inputs.baseType inputs.flashStyle]]
  have lentCoin : env.slot (.nestedResult 0 0) = some ((0,0),.coin inputs.baseType) := rfl
  obtain ⟨swaps,rows,out,rfl,sized,session⟩ := session_ok linked resolves baseType inputs.minProfit rfl lentCoin ran
  let traded : Env := env ++ [.coin inputs.baseType,.arbReceipt] :: rows
  have proceeds := Move.slot_last traded (.coin inputs.baseType)
  have lent : Env.slot (traded ++ [[.coin inputs.baseType]]) (.nestedResult 0 1) =
    some ((0,1),loanKind inputs.baseType inputs.flashStyle) := rfl
  have longer : (traded ++ [[Kind.coin inputs.baseType]]).length = ([borrow] ++
      Command.moveCall ⟨packages.arbitrage,"executor","begin",[inputs.baseType],
        [.nestedResult 0 0,.pure (.u64 inputs.minProfit)]⟩ :: swaps ++
      [Command.moveCall ⟨packages.arbitrage,"executor","settle_and_return",[inputs.baseType],
        [nested (.result [borrow].length) 1,coin]⟩]).length := by
    simp [traded,env,sized]
  have aligned : traded.length = ([borrow] ++ Command.moveCall ⟨packages.arbitrage,"executor","begin",[inputs.baseType],
      [.nestedResult 0 0,.pure (.u64 inputs.minProfit)]⟩ :: swaps).length := by
    simp [traded,env,sized]
  rw [← aligned] at closed
  obtain ⟨closing,rowsAfter,rfl,closes⟩ := flashRepay_typed lender lent proceeds longer closed
  have settled := (session.checks {((0,1),loanKind inputs.baseType inputs.flashStyle)}).append
    (settle_checked session.receipt session.last closes)
  have typed := Move.checks_step 0 borrowTyped rfl (Multiset.zero_le _) settled
  rw [List.append_assoc,List.append_assoc]
  have opening : ∀ c ∈ borrow :: .moveCall ⟨packages.arbitrage,"executor","begin",[inputs.baseType],
      [.nestedResult 0 0,.pure (.u64 inputs.minProfit)]⟩ :: swaps,c.repays = false := session.opening quietBorrow rfl
  exact ⟨⟨_,typed⟩,by simpa using SettlesFirst.intro opening rfl rfl⟩

theorem ownedArbPlan_swaps (opp : Opportunity) (minProfit : U64) :
    (ownedArbPlan opp minProfit).filter PtbStep.isSwap = pushSwaps opp.route := by
  simp only [ownedArbPlan,List.cons_append,List.filter_cons,List.filter_append,pushSwaps_swaps]
  simp [PtbStep.isSwap]

/-- The builder that trades the sender's own coins; the gas coin is then of the base token. -/
theorem buildOwned_assembled {inputs : OwnedInputs} {minProfit : U64} {commands : List Command}
    (linked : Linked base opp.route base) (resolves : List.Forall₂ (Resolves tag) opp.route inputs.hops)
    (baseType : inputs.baseType = tag base) (packages : Packages) (arbitrage : packages.arbitrage = inputs.package)
    (gas : packages.gas = inputs.baseType) (built : buildOwned (ownedArbPlan opp minProfit) inputs = .ok commands) :
    Assembled packages commands := by
  have counted : (pushSwaps opp.route).length = inputs.hops.length := by simp [pushSwaps,resolves.length_eq]
  simp only [buildOwned,finish_ok,run_bind,call,run_command,lowerSwaps,ownedArbPlan_swaps,counted,if_true] at built
  rw [← arbitrage] at built
  obtain ⟨_,_,_,⟨rfl,rfl⟩,_,_,⟨rfl,rfl⟩,coin,_,ran,-,rfl⟩ := built
  let env : Env := [[.coin inputs.baseType]]
  have split : packages.typed [] (.splitCoins .gasCoin [.pure (.u64 inputs.amount)]) = some ⟨[],[],[.coin inputs.baseType]⟩ := by
    rw [← gas]
    rfl
  have given : env.slot (.nestedResult 0 0) = some ((0,0),.coin inputs.baseType) := rfl
  obtain ⟨swaps,rows,out,rfl,-,session⟩ := session_ok linked resolves baseType inputs.minProfit rfl given ran
  have settled : packages.typed (env ++ [.coin inputs.baseType,.arbReceipt] :: rows) (.moveCall
      ⟨packages.arbitrage,"executor","settle",[inputs.baseType],[.nestedResult 1 1,coin]⟩) =
      some ⟨[((1,1),.arbReceipt),(out,.coin inputs.baseType)],[],[]⟩ := by
    have receipt := session.receipt
    simp only [show env.length = 1 from rfl] at receipt
    simp [Packages.typed,Packages.signature,Packages.coinFunction,Move.accepts,Move.Parameter.accepts,receipt,session.last]
  have ends : packages.Checks (env ++ [.coin inputs.baseType,.arbReceipt] :: rows)
      ({(out,.coin inputs.baseType)} + ({((env.length,1),.arbReceipt)} + 0)) [.moveCall
      ⟨packages.arbitrage,"executor","settle",[inputs.baseType],[.nestedResult 1 1,coin]⟩] [[]] 0 :=
    Move.checks_step 0 settled (add_comm _ _) (Multiset.zero_le _) (Move.checks_nil _ _)
  have typed := Move.checks_step 0 split rfl (Multiset.zero_le _) ((session.checks 0).append ends)
  rw [List.append_assoc]
  have opening : ∀ c ∈ Command.splitCoins .gasCoin [.pure (.u64 inputs.amount)] ::
      .moveCall ⟨packages.arbitrage,"executor","begin",[inputs.baseType],
        [.nestedResult 0 0,.pure (.u64 inputs.minProfit)]⟩ :: swaps,c.repays = false := session.opening rfl rfl
  exact ⟨⟨_,typed⟩,by simpa using SettlesFirst.intro opening rfl rfl⟩

/-- Where plan and hops differ in the number of swaps nothing is built. -/
theorem lowerSwaps_mismatch {package : ObjectId} {plan : List PtbStep} {hops : List ResolvedHop} {coin : Argument}
    {commands : List Command} {result : Argument × List Command}
    (differ : (plan.filter PtbStep.isSwap).length ≠ hops.length) :
    (lowerSwaps package plan hops coin).run commands ≠ .ok result := by
  intro ran
  rw [lowerSwaps,if_neg differ] at ran
  cases (run_lift.mp ran).1

end builders

end SuiArbitrage.Rust.Ptb
