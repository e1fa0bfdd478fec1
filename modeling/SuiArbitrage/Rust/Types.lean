import SuiArbitrage.Rust.Clmm

/-! The pool snapshots of `offchain/src/types.rs`. Their sequence number is read
only by the ingestion and is left out. -/
namespace SuiArbitrage.Rust
open MachineWord

abbrev TokenId := String
abbrev PoolId := String

inductive Dex
  | ammV2 | cetus | turbos
  deriving DecidableEq, Repr

inductive PoolKind
  | v2 (reserveA reserveB feeBps : U64)
  | clmm (state : Clmm.ClmmState)
  deriving DecidableEq

structure PoolState where
  id : PoolId
  dex : Dex
  tokenA : TokenId
  tokenB : TokenId
  kind : PoolKind
  deriving DecidableEq

def PoolState.v2 (id : PoolId) (dex : Dex) (tokenA tokenB : TokenId) (reserveA reserveB feeBps : U64) : PoolState :=
  ⟨id,dex,tokenA,tokenB,.v2 reserveA reserveB feeBps⟩

def PoolState.clmm (id : PoolId) (dex : Dex) (tokenA tokenB : TokenId) (state : Clmm.ClmmState) : PoolState :=
  ⟨id,dex,tokenA,tokenB,.clmm state⟩

end SuiArbitrage.Rust
