import SuiArbitrage.Rust.Executor
import SuiArbitrage.Move.Sessions
import Mathlib.Data.Rat.Floor

/-! What the profit gate of an assembled transaction is worth to its lender. The gate
asks for the configured profit over the loan, and the fee of the loan is not in it. -/
namespace SuiArbitrage.Rust.Ptb
open MachineWord Fallible Scanner Flashloan Builder
open Move (TypeTag ObjectId ObjectArg Argument Command MoveCall)

section emits
variable {α β : Type} {Good : Command → Prop}

/-- A builder that only adds commands, all of which are good. -/
def Emits (Good : Command → Prop) (x : Builder α) : Prop :=
  ∀ commands value after, x.run commands = .ok (value,after) → ∃ more, after = commands ++ more ∧ ∀ c ∈ more, Good c

theorem Emits.bind {x : Builder α} {next : α → Builder β} (first : Emits Good x) (second : ∀ value, Emits Good (next value)) :
    Emits Good (x >>= next) := by
  intro commands result after ran
  obtain ⟨value,middle,ran,onward⟩ := run_bind.mp ran
  obtain ⟨more,rfl,here⟩ := first commands value middle ran
  obtain ⟨rest,rfl,later⟩ := second value _ result after onward
  exact ⟨more ++ rest,List.append_assoc _ _ _,List.forall_mem_append.mpr ⟨here,later⟩⟩

theorem emits_command {c : Command} (good : Good c) : Emits Good (command c) := by
  intro commands value after ran
  exact ⟨[c],(run_command.mp ran).2,List.forall_mem_singleton.mpr good⟩

theorem emits_lift (x : Anyhow α) : Emits Good (liftM x : Builder α) := by
  intro commands value after ran
  exact ⟨[],by rw [(run_lift.mp ran).2,List.append_nil],List.forall_mem_nil _⟩

theorem emits_foldlM {step : β → α → Builder β} (each : ∀ held item, Emits Good (step held item)) (items : List α) (start : β) :
    Emits Good (items.foldlM step start) := by
  induction items generalizing start with
  | nil =>
    intro commands value after ran
    obtain ⟨-,rfl⟩ := Prod.mk.inj (Except.ok.inj ran)
    exact ⟨[],(List.append_nil _).symm,List.forall_mem_nil _⟩
  | cons item items ih =>
    rw [List.foldlM_cons]
    exact (each start item).bind ih

theorem emits_lowerSwap (calls : ∀ c, Good (.moveCall c)) (package : ObjectId) (coin : Argument) (swap : PtbStep × ResolvedHop) :
    Emits Good (lowerSwap package coin swap) := by
  obtain ⟨step,hop⟩ := swap
  cases step with
  | swap module function poolId minOut =>
    exact (emits_lift _).bind fun _ => (emits_lift _).bind fun _ => (emits_lift _).bind fun _ => emits_command (calls _)
  | _ => exact emits_lift _

theorem emits_lowerSwaps (calls : ∀ c, Good (.moveCall c)) (package : ObjectId) (plan : List PtbStep) (hops : List ResolvedHop)
    (coin : Argument) : Emits Good (lowerSwaps package plan hops coin) := by
  unfold lowerSwaps
  dsimp only
  split
  · exact emits_foldlM (emits_lowerSwap calls package) _ _
  · exact emits_lift _

theorem lowerSwaps_appends {package : ObjectId} {plan : List PtbStep} {hops : List ResolvedHop} {coin last : Argument}
    {commands after : List Command} (ran : (lowerSwaps package plan hops coin).run commands = .ok (last,after)) :
    ∃ more, after = commands ++ more := by
  have emits : Emits (fun _ => True) (lowerSwaps package plan hops coin) := emits_lowerSwaps (fun _ => trivial) _ _ _ _
  obtain ⟨more,rfl,-⟩ := emits _ _ _ ran
  exact ⟨more,rfl⟩

end emits

/-- The call that takes the loan: its last argument is the size, and it is of one coin type. -/
def Lends (c : MoveCall) (T : TypeTag) (amount : U64) : Prop :=
  c.typeArguments = [T] ∧ c.arguments.getLast? = some (.pure (.u64 amount))

/-- What follows the gate: the vault takes what its receipt says out of the proceeds, or
the amount owed is split off and paid with the receipt of the loan. -/
def Repayment (commands : List Command) (loan proceeds : ℕ) (owed : U64) : Prop :=
  (∃ c lender, commands[proceeds + 1]? = some (.moveCall c) ∧
    c.arguments = [lender,.nestedResult loan 1,.result proceeds]) ∨
  commands[proceeds + 1]? = some (.splitCoins (.result proceeds) [.pure (.u64 owed)]) ∧
    ∃ c version market, commands[proceeds + 2]? = some (.moveCall c) ∧
      c.arguments = [version,market,.nestedResult (proceeds + 1) 0,.nestedResult loan 1]

/-- The loan goes into `begin`, the receipt of that call into `settle_and_return`, and
the loan is repaid from what that returns. -/
structure ProfitSession (package : ObjectId) (commands : List Command) (T : TypeTag) (amount minProfit owed : U64) : Prop where
  calls : ∃ i k lend coin, i + 1 < k ∧ commands[i]? = some (.moveCall lend) ∧ Lends lend T amount ∧
    commands[i + 1]? =
      some (.moveCall ⟨package,"executor","begin",[T],[.nestedResult i 0,.pure (.u64 minProfit)]⟩) ∧
    commands[k]? = some (.moveCall ⟨package,"executor","settle_and_return",[T],[.nestedResult (i + 1) 1,coin]⟩) ∧
    Repayment commands i k owed

theorem flashBorrow_ok {inputs : BuildInputs} {commands after : List Command} {argument : Argument}
    (ran : (flashBorrow inputs).run commands = .ok (argument,after)) :
    argument = .result commands.length ∧ ∃ lend, Lends lend inputs.baseType inputs.amount ∧
      after = commands ++ [.moveCall lend] := by
  unfold flashBorrow at ran
  cases style : inputs.flashStyle with
  | mockVault =>
    simp only [style,call,run_command] at ran
    obtain ⟨rfl,rfl⟩ := ran
    exact ⟨rfl,_,⟨rfl,rfl⟩,rfl⟩
  | scallop =>
    simp only [style,call,run_bind,run_lift,run_command] at ran
    obtain ⟨version,middle,⟨-,rfl⟩,rfl,rfl⟩ := ran
    exact ⟨rfl,_,⟨rfl,rfl⟩,rfl⟩

theorem Repayment.of_split {commands more : List Command} {loan : ℕ} {owed : U64} {c : MoveCall} {version market : Argument}
    {proceeds : ℕ} (length : commands.length = proceeds + 1)
    (pays : c.arguments = [version,market,.nestedResult (proceeds + 1) 0,.nestedResult loan 1]) :
    Repayment (commands ++ .splitCoins (.result proceeds) [.pure (.u64 owed)] :: .moveCall c :: more) loan proceeds owed := by
  refine .inr ⟨?_,c,version,market,?_,pays⟩
  · rw [← length]
    simp
  · rw [show proceeds + 2 = commands.length + 1 by omega]
    simp

theorem flashRepay_ok {inputs : BuildInputs} {commands after : List Command} {argument : Argument} {loan proceeds : ℕ}
    (length : commands.length = proceeds + 1)
    (ran : (flashRepay inputs (.nestedResult loan 1) (.result proceeds)).run commands = .ok (argument,after)) :
    (∃ more, after = commands ++ more) ∧ Repayment after loan proceeds inputs.repayTotal := by
  unfold flashRepay at ran
  cases style : inputs.flashStyle with
  | mockVault =>
    simp only [style,call,run_bind,run_command] at ran
    obtain ⟨change,middle,⟨rfl,rfl⟩,rfl,rfl⟩ := ran
    refine ⟨⟨_,List.append_assoc _ _ _⟩,.inl ⟨⟨inputs.providerPackage,"flash","repay",[inputs.baseType],
      [.object inputs.lender,.nestedResult loan 1,.result proceeds]⟩,_,?_,rfl⟩⟩
    rw [← length]
    simp
  | scallop =>
    simp only [style,call,run_bind,run_lift,run_command] at ran
    obtain ⟨owed,_,⟨rfl,rfl⟩,version,_,⟨-,rfl⟩,paid,_,⟨rfl,rfl⟩,rfl,rfl⟩ := ran
    simp only [List.append_assoc,List.singleton_append]
    exact ⟨⟨_,rfl⟩,.of_split length (by rw [length]; rfl)⟩

theorem getElem?_behind {α : Type} (before tail : List α) (j : ℕ) : (before ++ tail)[before.length + j]? = tail[j]? := by
  rw [List.getElem?_append_right (Nat.le_add_right _ _),Nat.add_sub_cancel_left]

theorem build_session {plan : List PtbStep} {inputs : BuildInputs} {commands : List Command}
    (built : build plan inputs = .ok commands) :
    ProfitSession inputs.package commands inputs.baseType inputs.amount inputs.minProfit inputs.repayTotal := by
  simp only [build,finish_ok,run_bind,call,run_command] at built
  obtain ⟨last,b,_,borrowed,begin,_,⟨rfl,rfl⟩,coin,_,swapped,proceeds,_,⟨rfl,rfl⟩,repaid⟩ := built
  obtain ⟨rfl,lend,lends,rfl⟩ := flashBorrow_ok borrowed
  obtain ⟨swaps,rfl⟩ := lowerSwaps_appends swapped
  obtain ⟨⟨more,rfl⟩,repays⟩ := flashRepay_ok (by simp) repaid
  have place : swaps.length + 2 = ([.moveCall lend,.moveCall ⟨inputs.package,"executor","begin",[inputs.baseType],
    [.nestedResult 0 0,.pure (.u64 inputs.minProfit)]⟩] ++ swaps : List Command).length := by simp
  refine ⟨0,swaps.length + 2,lend,coin,by omega,rfl,lends,rfl,?_,place ▸ repays⟩
  rw [place,List.append_assoc _ _ more]
  exact getElem?_behind _ _ 0

theorem buildLiquidation_session {plan : List PtbStep} {inputs : LiquidationInputs} {commands : List Command}
    (built : buildLiquidation plan inputs = .ok commands) :
    ProfitSession inputs.package commands inputs.debtType inputs.repayAmount inputs.minProfit inputs.repayTotal := by
  obtain ⟨last,prices,swapArgs,-,-,rfl⟩ := buildLiquidation_ok built
  have lends : Lends ⟨inputs.scallopPackage,ScallopPins.flashModule,ScallopPins.borrowFn,[inputs.debtType],
    [.object inputs.version,.object inputs.market,.pure (.u64 inputs.repayAmount)]⟩ inputs.debtType inputs.repayAmount :=
    ⟨rfl,rfl⟩
  exact ⟨prices.length,prices.length + 5,_,_,by omega,getElem?_behind prices _ 0,lends,getElem?_behind prices _ 1,
    getElem?_behind prices _ 5,.inr ⟨getElem?_behind prices _ 6,_,_,_,getElem?_behind prices _ 7,rfl⟩⟩

end SuiArbitrage.Rust.Ptb

namespace SuiArbitrage.Rust.Executor
open MachineWord Fallible Scanner Flashloan Ptb
open Move (TypeTag ObjectId Address ObjectArg Command Coin)
open Move.Executor (begin settleAndReturn settleAndReturn_ok)

def loanSize (opp : Opportunity) : U64 :=
  match opp.kind,opp.liquidation with
  | .liquidation,some leg => leg.repayAmount
  | _,_ => opp.inputAmount

/-- Whatever the gate accepts repays the loan with its fee and leaves the configured profit. -/
def Secures (amount minProfit fee configured : U64) : Prop :=
  ∀ (T : TypeTag) (sender : Address) (final out : Coin T),
    settleAndReturn (begin (⟨amount⟩ : Coin T) minProfit sender).2 final = .ok out →
      amount.val + fee.val ≤ final.value.val ∧ configured.val ≤ final.value.val - (amount.val + fee.val)

/-- A gate that asks for the configured profit alone secures nothing of a fee, unless it
can accept no coin at all. -/
theorem secures_iff (amount fee configured : U64) :
    Secures amount configured fee configured ↔ fee.val = 0 ∨ 2^64 ≤ amount.val + configured.val := by
  constructor
  · intro secures
    by_contra other
    obtain ⟨charged,fits⟩ := not_or.mp other
    let least : Coin "" := ⟨⟨amount.val + configured.val,not_le.mp fits⟩⟩
    have reached : amount.val + configured.val ≤ least.value.val := le_rfl
    obtain ⟨repaid,left⟩ := secures "" "" least least (settleAndReturn_ok.mpr ⟨reached,rfl⟩)
    change _ ≤ amount.val + configured.val at repaid
    change _ ≤ amount.val + configured.val - _ at left
    omega
  · intro either T sender final out accepted
    have reached : amount.val + configured.val ≤ final.value.val := (settleAndReturn_ok.mp accepted).1
    omega

theorem flashProvider_feeBps {F : Type} {config : Config F} {provider : FlashLoanProvider}
    (found : flashProvider config = .ok provider) : provider.feeBps = config.flashFeeBps := by
  have named := orBail_ok.mp found
  unfold providerFrom at named
  split at named
  · rw [← Option.some.inj named]
    rfl
  · split at named
    · rw [← Option.some.inj named]
      rfl
    · cases named

section build
variable {F : Type} [F64 F] {node : Node} {config : Config F} {opp : Opportunity} {refs : List (LivePoolRef × Bool)}
  {floors : List U64} {sender : Address} {commands : List Command}

def configuredMin (config : Config F) (opp : Opportunity) : U64 :=
  if opp.kind = .liquidation then config.minProfit else config.effectiveMinProfitMist

omit [F64 F] in
theorem repayTotal_eq {provider : FlashLoanProvider} (found : flashProvider config = .ok provider) (amount : U64) :
    provider.repayTotal amount = saturatingAdd amount (quoteFeeBps amount config.flashFeeBps) := by
  rw [FlashLoanProvider.repayTotal,FlashLoanProvider.quoteFee,flashProvider_feeBps found]

omit [F64 F] in
theorem buildLiquidationPtb_session (built : buildLiquidationPtb node config opp refs floors sender = .ok commands) :
    ∃ leg pkg T, opp.liquidation = some leg ∧ node.objectId config.packageId = .ok pkg ∧
      ProfitSession pkg commands T leg.repayAmount config.minProfit
        (saturatingAdd leg.repayAmount (quoteFeeBps leg.repayAmount config.flashFeeBps)) := by
  simp only [buildLiquidationPtb,bind_ok,orBail_ok,context_ok,Prod.exists] at built
  obtain ⟨leg,found,debtType,-,collateralType,-,provider,named,plan,-,lref,aToB,-,debtPi,-,collPi,-,debtFeed,-,collFeed,-,
    accumulatorMsg,-,vaaBytes,-,debtInfo,-,collInfo,-,pkg,package,scallopPackage,-,version,-,obligation,-,market,-,
    registry,-,xOracle,-,wormholePackage,-,pythPackage,-,wormholeState,-,pythState,-,built⟩ := built
  refine ⟨leg,pkg,debtType,found,package,?_⟩
  rw [← repayTotal_eq named]
  exact buildLiquidation_session built

theorem buildFlashPtb_session {baseType : TypeTag} {pkg : ObjectId}
    (built : buildFlashPtb node config opp refs floors sender baseType pkg = .ok commands) :
    ProfitSession pkg commands baseType opp.inputAmount config.effectiveMinProfitMist
      (saturatingAdd opp.inputAmount (quoteFeeBps opp.inputAmount config.flashFeeBps)) := by
  simp only [buildFlashPtb,bind_ok,Prod.exists] at built
  obtain ⟨provider,named,hops,-,lender,-,providerPackage,version,-,built⟩ := built
  rw [← repayTotal_eq named]
  exact build_session built

/-- In every assembled transaction the gate is the configured threshold over the loan, and
so it covers repayment and threshold exactly where the fee is nothing, or where no coin
can pass it. -/
theorem buildPtb_secures_iff (built : buildPtb node config opp refs floors sender = .ok commands) :
    ∃ pkg T, node.objectId config.packageId = .ok pkg ∧
      ProfitSession pkg commands T (loanSize opp) (configuredMin config opp)
        (saturatingAdd (loanSize opp) (quoteFeeBps (loanSize opp) config.flashFeeBps)) ∧
      (Secures (loanSize opp) (configuredMin config opp) (quoteFeeBps (loanSize opp) config.flashFeeBps)
          (configuredMin config opp) ↔
        (quoteFeeBps (loanSize opp) config.flashFeeBps).val = 0 ∨
          2^64 ≤ (loanSize opp).val + (configuredMin config opp).val) := by
  simp only [buildPtb,bind_ok,context_ok] at built
  obtain ⟨baseType,-,pkg,package,built⟩ := built
  split at built
  · rename_i kind
    obtain ⟨leg,pkg,T,found,package,session⟩ := buildLiquidationPtb_session built
    have size : loanSize opp = leg.repayAmount := by simp only [loanSize,kind,found]
    have least : configuredMin config opp = config.minProfit := if_pos kind
    rw [size,least]
    exact ⟨pkg,T,package,session,secures_iff _ _ _⟩
  · rename_i kind
    have size : loanSize opp = opp.inputAmount := by
      unfold loanSize
      split
      · rename_i liquidation _
        exact absurd liquidation kind
      · rfl
    have least : configuredMin config opp = config.effectiveMinProfitMist := if_neg kind
    rw [size,least]
    exact ⟨pkg,baseType,package,buildFlashPtb_session built,secures_iff _ _ _⟩

end build

section small

/-- Exact rationals stand in for floating point in a run on fixed inputs. -/
instance : F64 ℚ where
  ofU64 x := x.val
  toU64 x := ⟨min ⌊x⌋.toNat (2^64 - 1),by omega⟩
  powi x n := x ^ n
  less x y := x < y
  atMost x y := x ≤ y

def plainNode : Node := ⟨.ok,.ok,fun _ => .ok 1,fun _ _ => .ok []⟩

def vaultConfig (flashFeeBps : U64) : Config ℚ where
  packageId := "0xa"
  baseToken := Move.sui
  minProfit := 1
  flashProvider := "mock"
  flashFeeBps := flashFeeBps
  flashLenderId := "0x3"
  flashVersionId := "0x0"
  scallopXOracleId := "0x0"
  scallopRegistryId := "0x0"
  scallopPackageId := "0xa"
  cetusGlobalConfigId := "0x0"
  turbosVersionedId := "0x0"
  pythStateId := "0x0"
  pythPriceInfoObjects := []
  pythFeedIds := []
  wormholeStateId := "0x0"
  wormholePackageId := "0x0"
  pythPackageId := "0x0"
  hermesUrl := ""
  pythFee := 1
  minProfitUsd := none
  suiPriceUsd := 3

/-- Two pools between which a thousand units gain one. -/
def tightWorld : Move.World :=
  ⟨⟨[⟨Move.sui,Move.usdc,⟨"0x1",1000000,5000000,30⟩⟩,⟨Move.sui,Move.usdc,⟨"0x2",1010000,5000000,30⟩⟩],by decide⟩,
    ⟨[⟨Move.sui,⟨"0x3",2000000,30⟩⟩],by decide⟩,fun _ _ => 0,0⟩

def tightOpp : Opportunity where
  kind := .arb
  liquidation := none
  route := [⟨"0x1",.ammV2,Move.sui,Move.usdc,true⟩,⟨"0x2",.ammV2,Move.usdc,Move.sui,false⟩]
  inputAmount := 1000
  outputAmount := 1001
  hopOutputs := [4980,1001]
  grossProfit := 1
  flashFee := 0
  netProfit := 1

def tightRefs : List (LivePoolRef × Bool) :=
  [(⟨.ammV2,"0x1",Move.sui,Move.usdc,none⟩,true),(⟨.ammV2,"0x2",Move.sui,Move.usdc,none⟩,false)]

def tightPtb (flashFeeBps : U64) : Anyhow (List Command) :=
  buildPtb plainNode (vaultConfig flashFeeBps) tightOpp tightRefs [0,0] "0xb"

theorem quoteFeeBps_small (flashFeeBps : U64) (small : 1000 * flashFeeBps.val < 2^64) :
    (quoteFeeBps 1000 flashFeeBps).val = (1000 * flashFeeBps.val + 9999) / 10000 := by
  have fee : Move.Flash.exactFee (1000 : U64).val flashFeeBps.val = (1000 * flashFeeBps.val + 9999) / 10000 :=
    Move.Flash.exactFee_eq _ _
  rw [quoteFeeBps_of_lt (by rw [fee]; omega),fee]

/-- With a lender that takes no fee the gate is enough. -/
theorem buildPtb_secures_free : ∃ commands pkg T, tightPtb 0 = .ok commands ∧
    ProfitSession pkg commands T 1000 1 (saturatingAdd 1000 (quoteFeeBps 1000 0)) ∧ Secures 1000 1 (quoteFeeBps 1000 0) 1 := by
  have builds : (tightPtb 0).isOk = true := by decide +kernel
  obtain ⟨commands,built⟩ := exists_ok builds
  obtain ⟨pkg,T,-,session,secures⟩ := buildPtb_secures_iff built
  exact ⟨commands,pkg,T,built,session,secures.mpr (.inl (quoteFeeBps_small 0 (by decide)))⟩

/-- A fee of three units and a threshold of one: the gate accepts a coin of 1001 units, of
which the vault is owed 1003. -/
theorem buildPtb_unsecured : ∃ commands, tightPtb 30 = .ok commands ∧
    (transact (Move.Machine.step Move.bareChain) (Move.Machine.start tightWorld) (commands.take 5)).map
      Move.Machine.settled = .ok [⟨1,Move.sui,1001⟩] ∧
    Move.execute Move.bareChain tightWorld commands = .error (.abort (.code .flash Move.Flash.eRepayTooLow)) ∧
    ¬ Secures 1000 1 (quoteFeeBps 1000 30) 1 := by
  have runs : ((tightPtb 30).toOption.map fun commands =>
      ((transact (Move.Machine.step Move.bareChain) (Move.Machine.start tightWorld) (commands.take 5)).map
        Move.Machine.settled,(Move.execute Move.bareChain tightWorld commands).map fun _ => ())) =
      some (.ok [⟨1,Move.sui,1001⟩],.error (.abort (.code .flash Move.Flash.eRepayTooLow))) := by decide +kernel
  cases built : tightPtb 30 with
  | error stop =>
    rw [built] at runs
    cases runs
  | ok commands =>
    rw [built] at runs
    obtain ⟨accepted,stopped⟩ := Prod.mk.inj (Option.some.inj runs)
    refine ⟨commands,rfl,accepted,?_,?_⟩
    · exact map_error.mp stopped
    · rw [secures_iff,quoteFeeBps_small 30 (by decide)]
      decide

end small

end SuiArbitrage.Rust.Executor
