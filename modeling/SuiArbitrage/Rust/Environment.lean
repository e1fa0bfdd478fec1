import SuiArbitrage.Rust.Indexer
import SuiArbitrage.Rust.LiveSafety

/-! How `Config::from_env` of `offchain/src/config.rs` reads the configuration, and what the
environment of a bot that sends must say. -/
namespace SuiArbitrage.Rust
open MachineWord Fallible Stateful

/-- What `env::var` finds: nothing, where a variable is not set or not text. -/
abbrev Env := String → Option String

/-- `str::parse` of a `bool`. -/
def parseBool (s : String) : Option Bool :=
  if s = "true" then some true else if s = "false" then some false else none

/-- All that the configuration says to the live loop and to the task that keeps its pools. -/
structure Settings (F : Type) extends Live.LiveConfig F where
  rpcUrl : String
  wsUrl : String
  pollIntervalMs : U64
  ingestMode : String
  trackedPools : List String
  liqAssets : List String
  xOraclePackageId : String
  pythRulePackageId : String
  scallopPythRegistryId : String
  metricsAddr : String
  indexerEnabled : Bool
  indexerDexes : List String
  indexerMinLiquidity : U128
  indexerMaxPools : ℕ
  indexerDiscoverySecs : U64
  indexerRefreshSecs : U64
  indexerQuoteTokens : List String
  indexerLoadTicks : Bool
  indexerMaxTicks : ℕ

def Settings.indexer {F : Type} (settings : Settings F) : Indexer.IndexerConfig where
  minLiquidity := settings.indexerMinLiquidity
  maxPools := settings.indexerMaxPools
  quoteTokens := settings.indexerQuoteTokens
  loadTicks := settings.indexerLoadTicks
  maxTicks := settings.indexerMaxTicks

section read
variable (env : Env)

def envOr (key default : String) : String := (env key).getD default

/-- The error of the parser, beneath the context, is left out. -/
def envParse {α : Type} (parse : String → Option α) (key : String) (default : α) : Anyhow α :=
  match env key with
  | some v => orBail ("invalid value for " ++ key) (parse v)
  | none => .ok default

def commaParts (v : String) : List String := (splitComma [] v.toList).map fun s => trim (.ofList s)

/-- The sizes of the scan: a grid, unless some are given that can be read. -/
def envInputs : List U64 :=
  let parsed := ((env "ARB_CANDIDATE_INPUTS").map fun v => (commaParts v).filterMap (parseUnsigned 64)).getD []
  if parsed ≠ [] then parsed
  else [100000000,500000000,1000000000,5000000000,10000000000,50000000000,100000000000,500000000000]

/-- The sizes of the owned mode, given in SUI, ascending and without duplicates. -/
def envSuiSizes {F : Type} [F64 F] (parseF64 : String → Option F) : List U64 :=
  let sizes : List U64 := match env "ARB_OWNED_SIZES" with
    | some v => ((commaParts v).filterMap parseF64).map (fun sui => F64.toU64 (sui * F64.ofU64 1000000000)) |>.filter (0 < ·)
    | none => [5,10,20,30,50,75,100,150,200].map fun s => s * 1000000000
  (sizes.insertionSort (· ≤ ·)).dedup

def envIndexerDexes : List String :=
  let d := envList (env "ARB_INDEXER_DEXES")
  if d = [] then ["cetus","turbos"] else d

def envExecutionMode : Live.ExecMode :=
  if (trim (envOr env "ARB_EXECUTION_MODE" "flash")).map Char.toLower = "owned" then .owned else .flash

/-- The `usize` of the source is a 64-bit word. -/
def parseUsize (s : String) : Option ℕ := (parseUnsigned 64 s).map Fin.val

variable {F : Type} [F64 F] (parseF64 : String → Option F)

def fromEnv : Anyhow (Settings F) := do
  let minProfit ← envParse env (parseUnsigned 64) "ARB_MIN_PROFIT" 10000000
  let gasBudget ← envParse env (parseUnsigned 64) "ARB_GAS_BUDGET" 20000000
  let gasCostEstimate ← envParse env (parseUnsigned 64) "ARB_GAS_COST" 8000000
  let maxHops ← envParse env parseUsize "ARB_MAX_HOPS" 3
  let pollIntervalMs ← envParse env (parseUnsigned 64) "ARB_POLL_MS" 500
  let flashEnabled ← envParse env parseBool "ARB_FLASH_ENABLED" false
  let flashFeeBps ← envParse env (parseUnsigned 64) "ARB_FLASH_FEE_BPS" 0
  let killSwitch ← envParse env parseBool "ARB_KILL_SWITCH" false
  let maxDailyLossUsd ← envParse env parseF64 "ARB_MAX_DAILY_LOSS_USD" (F64.ofU64 0)
  let submitEnabled ← envParse env parseBool "ARB_SUBMIT_ENABLED" false
  let maxQuoteAgeMs ← envParse env (parseUnsigned 64) "ARB_MAX_QUOTE_AGE_MS" 1500
  let perHopSlippageBps ← envParse env (parseUnsigned 64) "ARB_PER_HOP_SLIPPAGE_BPS" 30
  let liqEnabled ← envParse env parseBool "ARB_LIQ_ENABLED" false
  let liqCloseFactor ← envParse env parseF64 "ARB_LIQ_CLOSE_FACTOR" (F64.ofU64 1 / F64.ofU64 2)
  let liqBonus ← envParse env parseF64 "ARB_LIQ_BONUS" (F64.ofU64 1 / F64.ofU64 20)
  let liqHealthMargin ← envParse env parseF64 "ARB_LIQ_HEALTH_MARGIN" (F64.ofU64 1 / F64.ofU64 50)
  let pythFee ← envParse env (parseUnsigned 64) "ARB_PYTH_FEE" 1
  let indexerEnabled ← envParse env parseBool "ARB_INDEXER_ENABLED" true
  let indexerMinLiquidity ← envParse env (parseUnsigned 128) "ARB_INDEXER_MIN_LIQUIDITY" 0
  let indexerMaxPools ← envParse env parseUsize "ARB_INDEXER_MAX_POOLS" 300
  let indexerDiscoverySecs ← envParse env (parseUnsigned 64) "ARB_INDEXER_DISCOVERY_SECS" 300
  let indexerRefreshSecs ← envParse env (parseUnsigned 64) "ARB_INDEXER_REFRESH_SECS" 10
  let indexerLoadTicks ← envParse env parseBool "ARB_INDEXER_LOAD_TICKS" false
  let indexerMaxTicks ← envParse env parseUsize "ARB_INDEXER_MAX_TICKS" 512
  let maxWalletCapital ← envParse env (parseUnsigned 64) "ARB_MAX_WALLET_CAPITAL" 200000000000
  let suiPriceUsd ← envParse env parseF64 "ARB_SUI_PRICE_USD" (F64.ofU64 3)
  return {
    rpcUrl := envOr env "SUI_RPC_URL" "https://fullnode.testnet.sui.io:443"
    wsUrl := envOr env "SUI_WS_URL" "wss://fullnode.testnet.sui.io:443"
    packageId := envOr env "ARB_PACKAGE_ID" "0x0"
    baseToken := envOr env "ARB_BASE_TOKEN" "0x2::sui::SUI"
    minProfit, gasBudget, gasCostEstimate, maxHops
    candidateInputs := envInputs env
    pollIntervalMs
    ingestMode := envOr env "ARB_INGEST_MODE" "poll"
    trackedPools := envList (env "ARB_TRACKED_POOLS")
    flashEnabled
    flashProvider := envOr env "ARB_FLASH_PROVIDER" "mock"
    flashFeeBps
    flashLenderId := envOr env "ARB_FLASH_LENDER_ID" "0x0"
    flashVersionId := envOr env "ARB_FLASH_VERSION_ID" "0x0"
    poolBlacklist := envList (env "ARB_POOL_BLACKLIST")
    killSwitch, maxDailyLossUsd, submitEnabled, maxQuoteAgeMs, perHopSlippageBps, liqEnabled, liqCloseFactor, liqBonus
    liqHealthMargin
    liqAssets := envList (env "ARB_LIQ_ASSETS")
    scallopXOracleId := envOr env "ARB_SCALLOP_X_ORACLE_ID" "0x0"
    scallopRegistryId := envOr env "ARB_SCALLOP_REGISTRY_ID" "0x0"
    scallopPackageId := envOr env "ARB_SCALLOP_PACKAGE_ID"
      "0xefe8b36d5b2e43728cc323298626b83177803521d195cfb11e15b910e892fddf"
    keystorePath := envOr env "ARB_KEYSTORE_PATH" ""
    senderAddress := envOr env "ARB_SENDER_ADDRESS" "0x0"
    cetusGlobalConfigId := envOr env "ARB_CETUS_GLOBAL_CONFIG_ID"
      "0xdaa46292632c3c4d8f31f23ea0f9b36a28ff3677e9684980e4438403a67a3d8f"
    turbosVersionedId := envOr env "ARB_TURBOS_VERSIONED_ID"
      "0xf1cf0e81048df168ebeb1b8030fad24b3e0b53ae827c25053fff0779c1445b6f"
    xOraclePackageId := envOr env "ARB_X_ORACLE_PACKAGE_ID" "0x0"
    pythRulePackageId := envOr env "ARB_PYTH_RULE_PACKAGE_ID"
      "0x1cf913c825c202cbbb71c378edccb9c04723fa07a73b88677b2ef89c6e203a85"
    pythStateId := envOr env "ARB_PYTH_STATE_ID" "0x0"
    scallopPythRegistryId := envOr env "ARB_SCALLOP_PYTH_REGISTRY_ID" "0x0"
    pythPriceInfoObjects := envList (env "ARB_PYTH_PRICE_INFO_OBJECTS")
    pythFeedIds := envList (env "ARB_PYTH_FEED_IDS")
    wormholeStateId := envOr env "ARB_WORMHOLE_STATE_ID"
      "0xaeab97f96cf9877fee2883315d459552b2b921edc16d7ceac6eab944dd88919c"
    wormholePackageId := envOr env "ARB_WORMHOLE_PACKAGE_ID"
      "0x5306f64e312b581766351c07af79c72fcb1cd25147157fdc2f8ad76de9a3fb6a"
    pythPackageId := envOr env "ARB_PYTH_PACKAGE_ID"
      "0x04e20ddf36af412a4096f9014f4a565af9e812db9a05cc40254846cf6ed0ad91"
    hermesUrl := envOr env "ARB_HERMES_URL" "https://hermes.pyth.network"
    pythFee
    metricsAddr := envOr env "ARB_METRICS_ADDR" "0.0.0.0:9100"
    indexerEnabled
    indexerDexes := envIndexerDexes env
    indexerMinLiquidity, indexerMaxPools, indexerDiscoverySecs, indexerRefreshSecs
    indexerQuoteTokens := envList (env "ARB_INDEXER_QUOTE_TOKENS")
    indexerLoadTicks, indexerMaxTicks
    executionMode := envExecutionMode env
    ownedSizes := envSuiSizes env parseF64
    maxWalletCapital
    minProfitUsd := (env "ARB_MIN_PROFIT_USD").bind fun s => parseF64 (trim s)
    suiPriceUsd }

end read

section consent
variable {F : Type} [SignedF64 F] {env : Env} {parseF64 : String → Option F} {settings : Settings F}

theorem envParse_ok {α : Type} {parse : String → Option α} {key : String} {default value : α} :
    envParse env parse key default = .ok value ↔
      env key = none ∧ default = value ∨ ∃ v, env key = some v ∧ parse v = some value := by
  unfold envParse
  cases env key with
  | none => simp
  | some v => simp

theorem parseBool_some {s : String} {value : Bool} : parseBool s = some value ↔ s = if value then "true" else "false" := by
  unfold parseBool
  by_cases yes : s = "true"
  · subst yes
    cases value <;> simp
  · rw [if_neg yes]
    cases value <;> simp [yes]

/-- A switch that is off by default is on where its variable says so, in these letters. -/
theorem switch_on {key : String} (read : envParse env parseBool key false = .ok true) : env key = some "true" := by
  rcases envParse_ok.mp read with ⟨-,same⟩ | ⟨v,found,parsed⟩
  · cases same
  · rw [found,parseBool_some.mp parsed]
    rfl

theorem switch_off {key : String} (read : envParse env parseBool key false = .ok false) :
    env key = none ∨ env key = some "false" := by
  rcases envParse_ok.mp read with ⟨absent,-⟩ | ⟨v,found,parsed⟩
  · exact .inl absent
  · rw [found,parseBool_some.mp parsed]
    exact .inr rfl

/-- The variables that the switches of the bot are read from. -/
structure Switches (env : Env) (settings : Settings F) : Prop where
  flash : envParse env parseBool "ARB_FLASH_ENABLED" false = .ok settings.flashEnabled
  kill : envParse env parseBool "ARB_KILL_SWITCH" false = .ok settings.killSwitch
  submit : envParse env parseBool "ARB_SUBMIT_ENABLED" false = .ok settings.submitEnabled
  liq : envParse env parseBool "ARB_LIQ_ENABLED" false = .ok settings.liqEnabled
  keystore : envOr env "ARB_KEYSTORE_PATH" "" = settings.keystorePath
  base : envOr env "ARB_BASE_TOKEN" "0x2::sui::SUI" = settings.baseToken
  mode : envExecutionMode env = settings.executionMode

/-- Each switch is one of the reads on the way, wherever it stands among them. -/
theorem fromEnv_switches : Returns (Switches env) (fromEnv env parseF64) := by
  unfold fromEnv
  repeat refine Returns.bind fun _ read => ?_
  apply returns_ok
  exact ⟨by assumption,by assumption,by assumption,by assumption,rfl,rfl,rfl⟩

/-- The operator has asked for submissions: each switch is set by name, in the spelling that
is parsed, a key store is named, and the bot trades its own coin or may borrow. -/
structure OptedIn (env : Env) : Prop where
  submits : env "ARB_SUBMIT_ENABLED" = some "true"
  signs : ∃ path, env "ARB_KEYSTORE_PATH" = some path ∧ path ≠ ""
  runs : env "ARB_KILL_SWITCH" = none ∨ env "ARB_KILL_SWITCH" = some "false"
  spares : env "ARB_LIQ_ENABLED" = none ∨ env "ARB_LIQ_ENABLED" = some "false"
  funded : env "ARB_FLASH_ENABLED" = some "true" ∨
    ∃ mode, env "ARB_EXECUTION_MODE" = some mode ∧ (trim mode).map Char.toLower = "owned" ∧
      (env "ARB_BASE_TOKEN" = none ∨ env "ARB_BASE_TOKEN" = some "0x2::sui::SUI")

/-- What `main` does with an environment: it fails where the configuration cannot be loaded,
and else runs the loop. -/
def Live.main (build : Build) (world : Live.World F) (env : Env) (parseF64 : String → Option F) (n : ℕ) :
    Except Stop Unit × Live.History F :=
  match fromEnv env parseF64 with
  | .error stop => (.error stop,[])
  | .ok settings =>
    let (result,s) := Live.runLive build world settings.toLiveConfig n
    (result,s.trace)

theorem envOr_ne {key default value : String} (read : envOr env key default = value) (other : value ≠ default) :
    env key = some value := by
  unfold envOr at read
  cases found : env key with
  | none =>
    rw [found] at read
    exact absurd read.symm other
  | some v =>
    rw [found] at read
    exact congrArg some read

theorem envOr_default {key default : String} (read : envOr env key default = default) :
    env key = none ∨ env key = some default := by
  unfold envOr at read
  cases found : env key with
  | none => exact .inl rfl
  | some v =>
    rw [found] at read
    exact .inr (congrArg some read)

open Live in
/-- What the start of the loop has checked of the funding. -/
theorem startUp_funding {world : Live.World F} {config : LiveConfig F} (started : startUp world config = .ok ()) :
    (config.executionMode = .owned → config.baseToken = "0x2::sui::SUI") ∧
      (config.executionMode = .flash → config.flashEnabled = true) := by
  constructor
  · intro own
    by_contra other
    simp only [startUp,bail,own,ne_eq,other,not_false_eq_true,and_self,if_true] at started
    split_ifs at started <;> simp at started
  · intro borrows
    by_contra disabled
    simp only [startUp,bail,borrows,Bool.eq_false_of_not_eq_true disabled,and_self,if_true] at started
    split_ifs at started <;> simp at started

/-- A loop that sends has been started, and its configuration is not halted and lets it submit. -/
theorem Live.sent_cleared {build : Build} {world : Live.World F} {config : Live.LiveConfig F} {n : ℕ} (ieee : Live.Ieee F)
    {tx : Live.TransactionData} {delivery : Live.Delivery}
    (sent : .executed tx delivery ∈ (Live.runLive build world config n).2.trace) :
    Live.startUp world config = .ok () ∧ config.killSwitch = false ∧ config.submitEnabled = true := by
  unfold Live.runLive at sent
  dsimp only at sent
  cases started : Live.startUp world config with
  | error stop =>
    rw [started] at sent
    cases sent
  | ok =>
    rw [started] at sent
    have start : Live.Safe config (⟨.new (Live.riskConfig config),[]⟩ : Live.Session F) := ⟨throughout_nil,rfl⟩
    have round : Triple (Live.Safe config) (Live.tick build world config) (fun _ => Live.Safe config)
      (fun _ => Live.Safe config) := Live.tick_safe ieee (Live.startUp_price started).1
    have safe := (Live.ticks_rule round n _ start).always
    obtain ⟨before,after,split⟩ := List.append_of_mem sent
    obtain ⟨_,_,_,_,-,-,cleared⟩ := safe.gated before _ after split tx delivery rfl
    exact ⟨rfl,cleared.halted,cleared.enabled⟩

/-- Nothing is sent unless the operator has asked for it: a run from an environment that sends
anything starts from one that opts in. -/
theorem Live.main_opted_in (ieee : Live.Ieee F) (build : Build) (world : Live.World F) (env : Env)
    (parseF64 : String → Option F) (n : ℕ) {tx : Live.TransactionData} {delivery : Live.Delivery}
    (sent : .executed tx delivery ∈ (Live.main build world env parseF64 n).2) : OptedIn env := by
  unfold Live.main at sent
  cases loaded : fromEnv env parseF64 with
  | error stop =>
    rw [loaded] at sent
    cases sent
  | ok settings =>
    rw [loaded] at sent
    have sent : .executed tx delivery ∈ (Live.runLive build world settings.toLiveConfig n).2.trace := sent
    have switches := fromEnv_switches settings loaded
    obtain ⟨keyed,-⟩ := Live.runLive_sent n tx delivery sent
    obtain ⟨started,halted,enabled⟩ := Live.sent_cleared ieee sent
    obtain ⟨own,borrows⟩ := startUp_funding started
    refine ⟨?_,?_,?_,?_,?_⟩
    · exact switch_on (enabled ▸ switches.submit)
    · exact ⟨_,envOr_ne switches.keystore keyed,keyed⟩
    · exact switch_off (halted ▸ switches.kill)
    · exact switch_off (Live.startUp_disabled started enabled ▸ switches.liq)
    · cases mode : settings.executionMode with
      | flash => exact .inl (switch_on (borrows mode ▸ switches.flash))
      | owned =>
        right
        have asked : envExecutionMode env = .owned := switches.mode.trans mode
        unfold envExecutionMode at asked
        split at asked
        next named =>
          cases found : env "ARB_EXECUTION_MODE" with
          | none =>
            rw [envOr,found] at named
            exact absurd named (by decide +kernel)
          | some v =>
            rw [envOr,found] at named
            exact ⟨v,rfl,named,envOr_default (switches.base.trans (own mode))⟩
        next => cases asked

end consent

namespace Live.Wallet

/-- The variables of a wallet that trades a thousandth of a millionth of its coin. -/
def consent : Env := fun key => [("ARB_SUBMIT_ENABLED","true"),("ARB_KEYSTORE_PATH","keystore"),("ARB_EXECUTION_MODE"," Owned"),
  ("ARB_OWNED_SIZES","0.000001"),("ARB_CANDIDATE_INPUTS","1000"),("ARB_MIN_PROFIT","1"),("ARB_GAS_COST","0"),
  ("ARB_GAS_BUDGET","5000000"),("ARB_PACKAGE_ID","0xa"),("ARB_SENDER_ADDRESS",me)].lookup key

def parseSize (s : String) : Option ℚ := if s = "0.000001" then some (1 / 1000000) else none

theorem main_opted_in_wallet : OptedIn consent := by
  have sends : ((main .debug (world fun _ => replied 4) consent parseSize 1).2.findSome? Event.sentTx).isSome = true := by
    decide +kernel
  obtain ⟨tx,found⟩ := Option.isSome_iff_exists.mp sends
  obtain ⟨event,member,sent⟩ := List.exists_of_findSome?_eq_some found
  obtain ⟨delivery,rfl⟩ := Event.sentTx_some sent
  exact main_opted_in rational_ieee .debug (world fun _ => replied 4) consent parseSize 1 member

end Live.Wallet

end SuiArbitrage.Rust
