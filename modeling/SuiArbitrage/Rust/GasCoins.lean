import SuiArbitrage.Lib.GreedyCover
import SuiArbitrage.Rust.LiveRules

/-! The funding of an owned trade. The cap on its size is computed from the balance of
the wallet, and the coins that pay for it are taken from the first page of their listing. -/
namespace SuiArbitrage.Rust.Live
open MachineWord Fallible GreedyCover
open Move (ObjectId Address)
open List (Subperm)

def Coin.mist (c : Coin) : ℕ := c.balance.val

/-- The coins of a sender, each with its own id. The balance that the node reports is
their sum. -/
structure Wallet where
  coins : List Coin
  total : U128
  distinct : (coins.map Coin.objectRef).Nodup
  balanced : total.val = weigh Coin.mist coins

/-- The pages in which a node lists the coins, in any order, with at most 200 on each. -/
structure Listing (wallet : Wallet) where
  pages : List (List Coin)
  complete : pages.flatten.Perm wallet.coins
  short : ∀ page ∈ pages, page.length ≤ 200

/-- The one page that the executor reads. -/
def Listing.firstPage {wallet : Wallet} (listing : Listing wallet) : List Coin := listing.pages.headD []

def largestFirst (coins : List Coin) : List Coin := coins.insertionSort fun c d => d.balance ≤ c.balance

/-- The pick succeeds with distinct coins of the wallet that cover the need, and no fewer
coins of it do. -/
def Funds (build : Build) (sender : Address) (wallet : Wallet) (page : List Coin) (size gasBudget : U64) : Prop :=
  ∃ need chosen, add build size gasBudget = .ok need ∧ need.val = size.val + gasBudget.val ∧
    pickGasCoinsCovering build sender need page = .ok (chosen.map Coin.objectRef) ∧ (chosen.map Coin.objectRef).Nodup ∧
    IsLeast (coverSizes Coin.mist wallet.coins (size.val + gasBudget.val)) chosen.length ∧
    chosen.Subperm wallet.coins ∧ need.val ≤ weigh Coin.mist chosen

/-- As many of the largest coins of the page as the wallet needs at least cover the need. -/
def Reaches (wallet : Wallet) (page : List Coin) (need : ℕ) : Prop :=
  ∃ count, IsLeast (coverSizes Coin.mist wallet.coins need) count ∧
    need ≤ weigh Coin.mist ((largestFirst page).take count) ∧ weigh Coin.mist ((largestFirst page).take count) < 2^64

section loop
variable {build : Build} {need sum total : U64} {c : Coin} {coins rest : List Coin} {picked chosen : List ObjectId} {count : ℕ}

theorem cover_stop (stop : need ≤ sum) : cover build need coins sum picked = .ok (sum,picked) := by
  cases coins with
  | nil => rfl
  | cons c rest => exact if_pos stop

theorem cover_go (go : ¬ need ≤ sum) : cover build need (c :: rest) sum picked =
    add build sum c.balance >>= fun sum => cover build need rest sum (picked ++ [c.objectRef]) := if_neg go

/-- The loop stops where the coins so far cover the need. -/
theorem cover_of_take (long : count ≤ coins.length)
    (before : ∀ fewer < count, sum.val + weigh Coin.mist (coins.take fewer) < need.val)
    (enough : need.val ≤ sum.val + weigh Coin.mist (coins.take count))
    (fits : sum.val + weigh Coin.mist (coins.take count) < 2^64) :
    cover build need coins sum picked =
      .ok (⟨sum.val + weigh Coin.mist (coins.take count),fits⟩,picked ++ (coins.take count).map Coin.objectRef) := by
  induction coins generalizing sum picked count with
  | nil => simp [cover]
  | cons c rest ih =>
    cases count with
    | zero => simp [cover_stop (show need ≤ sum by simpa using enough)]
    | succ count =>
      have go : ¬ need ≤ sum := by simpa using before 0 (Nat.succ_pos count)
      simp only [List.take_succ_cons,weigh_cons,← Nat.add_assoc] at enough fits
      have small : sum.val + c.balance.val < 2^64 := (Nat.le_add_right _ _).trans_lt fits
      rw [cover_go go,add_of_lt small,ok_bind,ih (Nat.le_of_succ_le_succ long) ?_ enough fits]
      · simp [Coin.mist,Nat.add_assoc]
      · intro fewer less
        have earlier := before (fewer + 1) (Nat.succ_lt_succ less)
        rwa [List.take_succ_cons,weigh_cons,← Nat.add_assoc] at earlier

/-- Where an addition of two words wraps, the result is below both. -/
theorem add_wraps {x y result : U64} (ran : add build x y = .ok result) : result.val = x.val + y.val ∨
    2^64 ≤ x.val + y.val ∧ result < x := by
  by_cases small : x.val + y.val < 2^64
  · rw [add_of_lt small] at ran
    exact .inl (Fin.ext_iff.mp (Except.ok.inj ran)).symm
  · cases build with
    | debug => exact absurd (add_debug ran ▸ result.isLt) small
    | release =>
      rw [add,word_release] at ran
      obtain rfl := Except.ok.inj ran
      have wrapped : (wrap 64 ((x.val : ℤ) + y.val)).val = (x.val + y.val) % 2^64 := by
        rw [← Nat.cast_add,wrap_natCast]
      have first := x.isLt
      have second := y.isLt
      rw [Fin.lt_def,wrapped]
      omega

/-- What the loop picks is a beginning. Its sum is exact where no shorter one covers. -/
theorem cover_ok (ran : cover build need coins sum picked = .ok (total,chosen)) (enough : need ≤ total) :
    ∃ count ≤ coins.length, chosen = picked ++ (coins.take count).map Coin.objectRef ∧
      ((∀ fewer < count, sum.val + weigh Coin.mist (coins.take fewer) < need.val) →
        total.val = sum.val + weigh Coin.mist (coins.take count)) := by
  induction coins generalizing sum picked with
  | nil =>
    obtain ⟨rfl,rfl⟩ := Prod.mk.inj (Except.ok.inj ran)
    exact ⟨0,le_rfl,by simp,by simp⟩
  | cons c rest ih =>
    by_cases stop : need ≤ sum
    · rw [cover_stop stop] at ran
      obtain ⟨rfl,rfl⟩ := Prod.mk.inj (Except.ok.inj ran)
      exact ⟨0,Nat.zero_le _,by simp,by simp⟩
    · rw [cover_go stop] at ran
      obtain ⟨next,added,ran⟩ := bind_ok.mp ran
      obtain ⟨count,long,rfl,exact_sum⟩ := ih ran
      refine ⟨count + 1,Nat.succ_le_succ long,by simp,fun before => ?_⟩
      have shifted : ∀ fewer < count, sum.val + c.mist + weigh Coin.mist (rest.take fewer) < need.val := by
        intro fewer less
        have earlier := before (fewer + 1) (Nat.succ_lt_succ less)
        rwa [List.take_succ_cons,weigh_cons,← Nat.add_assoc] at earlier
      rw [List.take_succ_cons,weigh_cons,← Nat.add_assoc]
      rcases add_wraps added with plain | ⟨large,below⟩
      · rw [plain] at exact_sum
        exact exact_sum shifted
      · -- A wrapped sum is below the need, and no coin comes after it: it is the total.
        cases count with
        | zero =>
          have last : total.val = next.val := by simpa using exact_sum
          exact absurd (enough.trans (Fin.le_def.mpr (last.trans_le (Fin.lt_def.mp below).le))) stop
        | succ count =>
          have first := shifted 0 (Nat.succ_pos count)
          have small := need.isLt
          simp only [List.take_zero,weigh_nil,Coin.mist] at first
          omega

end loop

section pick
variable {build : Build} {sender : Address} {wallet : Wallet} {page coins : List Coin} {need size gasBudget : U64} {count : ℕ}

theorem largestFirst_perm (coins : List Coin) : (largestFirst coins).Perm coins := List.perm_insertionSort _ coins

theorem largestFirst_descending (coins : List Coin) : Descending Coin.mist (largestFirst coins) := by
  have : Std.Total (fun c d : Coin => d.balance ≤ c.balance) := ⟨fun c d => le_total d.balance c.balance⟩
  have : IsTrans Coin (fun c d => d.balance ≤ c.balance) := ⟨fun _ _ _ first second => second.trans first⟩
  exact List.pairwise_insertionSort (fun c d : Coin => d.balance ≤ c.balance) coins

theorem pick_ok {ids : List ObjectId} : pickGasCoinsCovering build sender need page = .ok ids ↔
    ∃ sum, cover build need (largestFirst page) 0 [] = .ok (sum,ids) ∧ need ≤ sum ∧ ids ≠ [] := by
  have read : pickGasCoinsCovering build sender need page = .ok ids ↔ ∃ covered : U64 × List ObjectId,
      cover build need (largestFirst page) 0 [] = .ok covered ∧ (if covered.1 < need ∨ covered.2 = [] then
        bail ("wallet SUI " ++ toString covered.1 ++ " < required " ++ toString need ++ " (input + gas) for " ++ sender)
      else .ok covered.2) = .ok ids := by
    rw [pickGasCoinsCovering,bind_ok]
    simp only [unwind_ok,pure_eq_ok,largestFirst]
  rw [read]
  refine ⟨fun picked => ?_,fun picked => ?_⟩
  · obtain ⟨⟨sum,picked⟩,ran,answered⟩ := picked
    split at answered
    · cases answered
    · rename_i accepted
      obtain rfl := Except.ok.inj answered
      obtain ⟨enough,some_coin⟩ := not_or.mp accepted
      exact ⟨sum,ran,not_lt.mp enough,some_coin⟩
  · obtain ⟨sum,ran,enough,some_coin⟩ := picked
    exact ⟨(sum,ids),ran,if_neg (not_or.mpr ⟨not_lt.mpr enough,some_coin⟩)⟩

theorem firstPage_subperm (listing : Listing wallet) : listing.firstPage.Subperm wallet.coins := by
  refine Subperm.trans ?_ listing.complete.subperm
  cases pages : listing.pages with
  | nil => simp [Listing.firstPage,pages]
  | cons first rest =>
    rw [Listing.firstPage,pages,List.headD_cons,List.flatten_cons]
    exact (List.sublist_append_left first rest.flatten).subperm

theorem reaches_of_funds (part : page.Subperm wallet.coins) (funds : Funds build sender wallet page size gasBudget) :
    0 < size.val + gasBudget.val ∧ size.val + gasBudget.val < 2^64 ∧ Reaches wallet page (size.val + gasBudget.val) := by
  obtain ⟨need,chosen,-,exact_need,picked,-,least,-,-⟩ := funds
  obtain ⟨sum,ran,enough,some_coin⟩ := pick_ok.mp picked
  rw [← exact_need] at least ⊢
  obtain ⟨count,long,same,exact_sum⟩ := cover_ok ran enough
  rw [List.nil_append] at same
  have size_eq : chosen.length = count := by
    have lengths := congrArg List.length same
    simpa [Nat.min_eq_left long] using lengths
  rw [size_eq] at least
  have before (fewer : ℕ) (less : fewer < count) : weigh Coin.mist ((largestFirst page).take fewer) < need.val :=
    weigh_take_lt least ((largestFirst_perm page).subperm.trans part) less
  have total : sum.val = weigh Coin.mist ((largestFirst page).take count) := by simpa using exact_sum (by simpa using before)
  have some_count : 0 < count := by
    refine Nat.pos_of_ne_zero fun none => some_coin ?_
    simp [same,none]
  refine ⟨?_,need.isLt,count,least,total ▸ Fin.le_def.mp enough,total ▸ sum.isLt⟩
  simpa using before 0 some_count

theorem funds_of_reaches (part : page.Subperm wallet.coins) (positive : 0 < size.val + gasBudget.val)
    (small : size.val + gasBudget.val < 2^64) (reaches : Reaches wallet page (size.val + gasBudget.val)) :
    Funds build sender wallet page size gasBudget := by
  obtain ⟨count,least,enough,fits⟩ := reaches
  have within : (largestFirst page).Subperm wallet.coins := (largestFirst_perm page).subperm.trans part
  have chosen_within : ((largestFirst page).take count).Subperm wallet.coins := (List.take_sublist _ _).subperm.trans within
  have size_eq : ((largestFirst page).take count).length = count := by
    have fewest := least.2 ⟨_,chosen_within,rfl,enough⟩
    exact le_antisymm (List.length_take_le _ _) fewest
  have long : count ≤ (largestFirst page).length := by
    rw [List.length_take] at size_eq
    omega
  have before (fewer : ℕ) (less : fewer < count) : weigh Coin.mist ((largestFirst page).take fewer) < size.val + gasBudget.val :=
    weigh_take_lt least within less
  have some_coin : (largestFirst page).take count ≠ [] := by
    intro none
    rw [none] at enough
    exact absurd enough (not_le.mpr positive)
  have ran : cover build ⟨size.val + gasBudget.val,small⟩ (largestFirst page) 0 [] = _ :=
    cover_of_take long (by simpa using before) (by simpa using enough) (by simpa using fits)
  refine ⟨⟨_,small⟩,(largestFirst page).take count,add_of_lt small,rfl,pick_ok.mpr ⟨_,ran,?_,?_⟩,?_,?_,chosen_within,enough⟩
  · simpa [Fin.le_def] using enough
  · simpa using some_coin
  · obtain ⟨same,reordered,sub⟩ := chosen_within
    exact ((reordered.map Coin.objectRef).nodup_iff).mp (wallet.distinct.sublist (sub.map Coin.objectRef))
  · rwa [size_eq]

/-- A page with all coins of the wallet reaches every need within the balance. -/
theorem reaches_of_perm (whole : page.Perm wallet.coins) (small : wallet.total.val < 2^64) {need : ℕ} (within : need ≤ wallet.total.val) :
    Reaches wallet page need := by
  obtain ⟨count,least⟩ := exists_least (wallet.balanced ▸ within)
  have sorted : (largestFirst page).Perm wallet.coins := (largestFirst_perm page).trans whole
  refine ⟨count,least,le_weigh_take (largestFirst_descending page) sorted least,lt_of_le_of_lt ?_ small⟩
  rw [wallet.balanced,← weigh_perm sorted]
  exact weigh_sublist_le (List.take_sublist _ _)

end pick

/-- A size within the cap is funded exactly when the first page reaches its need. With one
page it does, for every need that is not zero. -/
theorem pickGasCoinsCovering_funds (build : Build) (sender : Address) (wallet : Wallet) (listing : Listing wallet)
    (gasBudget maxWalletCapital size : U64)
    (capped : (size.val : ℤ) ≤ min ((wallet.total.val : ℤ) - gasBudget.val) maxWalletCapital.val) :
    (Funds build sender wallet listing.firstPage size gasBudget ↔
      0 < size.val + gasBudget.val ∧ size.val + gasBudget.val < 2^64 ∧
        Reaches wallet listing.firstPage (size.val + gasBudget.val)) ∧
    (listing.pages.length = 1 → wallet.total.val < 2^64 → 0 < size.val + gasBudget.val →
      Funds build sender wallet listing.firstPage size gasBudget) := by
  have part := firstPage_subperm listing
  refine ⟨⟨reaches_of_funds part,fun reached => funds_of_reaches part reached.1 reached.2.1 reached.2.2⟩,?_⟩
  intro one small positive
  have within : size.val + gasBudget.val ≤ wallet.total.val := by
    have below := capped.trans (min_le_left _ _)
    omega
  have whole : listing.firstPage.Perm wallet.coins := by
    obtain ⟨page,single⟩ := List.length_eq_one_iff.mp one
    have complete := listing.complete
    rw [single,List.flatten_singleton] at complete
    rwa [Listing.firstPage,single]
  exact funds_of_reaches part positive (within.trans_lt small) (reaches_of_perm whole small within)

/-- The executor's cap is no higher than the bound on the size, once the gas is covered. -/
theorem walletCap_le {F : Type} (config : LiveConfig F) (total : U128) (covered : config.gasBudget.val ≤ total.val) :
    ((walletCap config total).val : ℤ) ≤ min ((total.val : ℤ) - config.gasBudget.val) config.maxWalletCapital.val := by
  have spendable := wrap_natCast_le 64 (total.val - config.gasBudget.val)
  have first : (walletCap config total).val ≤ (wrap 64 ((total.val - config.gasBudget.val : ℕ) : ℤ)).val :=
    Fin.le_def.mp (min_le_left _ _)
  have second : (walletCap config total).val ≤ config.maxWalletCapital.val := Fin.le_def.mp (min_le_right _ _)
  refine le_min ?_ (by exact_mod_cast second)
  omega

namespace Funding

/-- A coin of one SUI. -/
def coin (i : ℕ) : Coin := ⟨.ofList ('0' :: 'x' :: .replicate i '1'),1000000000⟩

theorem coin_injective : Function.Injective fun i => (coin i).objectRef := by
  intro i j same
  have lengths := congrArg (List.length ∘ String.toList) same
  simpa [coin] using lengths

theorem weigh_coins (count : ℕ) : weigh Coin.mist ((List.range count).map coin) = count * 1000000000 := by
  have each : Coin.mist ∘ coin = fun _ => 1000000000 := rfl
  rw [weigh,List.map_map,each,List.map_const',List.sum_replicate,List.length_range,smul_eq_mul]

theorem coins_distinct (count : ℕ) : (((List.range count).map coin).map Coin.objectRef).Nodup := by
  rw [List.map_map]
  exact List.nodup_range.map coin_injective

def pair : Wallet := ⟨(List.range 2).map coin,2000000000,coins_distinct 2,(weigh_coins 2).symm⟩

theorem pair_short : ∀ page ∈ [pair.coins], page.length ≤ 200 := List.forall_mem_singleton.mpr (by decide)

def pairListing : Listing pair := ⟨[pair.coins],.of_eq List.flatten_singleton,pair_short⟩

theorem pickGasCoinsCovering_funds_pair : Funds .release "0x5" pair pairListing.firstPage 500000000 1000000000 :=
  (pickGasCoinsCovering_funds .release "0x5" pair pairListing 1000000000 1000000000000 500000000 (by decide)).2 rfl
    (by decide) (by decide)

theorem pages_complete (count : ℕ) : [(List.range count).map coin,[coin count]].flatten.Perm ((List.range (count + 1)).map coin) := by
  rw [List.range_succ,List.map_append,List.flatten_cons,List.flatten_singleton,List.map_singleton]

theorem pages_short : ∀ page ∈ [(List.range 200).map coin,[coin 200]], page.length ≤ 200 :=
  List.forall_mem_cons.mpr ⟨by rw [List.length_map,List.length_range],List.forall_mem_singleton.mpr (by decide)⟩

/-- Of the 201 coins the last one is on the second page. -/
def wallet : Wallet := ⟨(List.range 201).map coin,201000000000,coins_distinct 201,(weigh_coins 201).symm⟩

def listing : Listing wallet := ⟨[(List.range 200).map coin,[coin 200]],pages_complete 200,pages_short⟩

theorem page_short (build : Build) : ¬ Funds build "0x5" wallet listing.firstPage 200000000000 1000000000 := by
  intro funds
  obtain ⟨-,-,count,-,enough,-⟩ := reaches_of_funds (firstPage_subperm listing) funds
  have most : weigh Coin.mist ((largestFirst listing.firstPage).take count) ≤ 200 * 1000000000 := by
    have page : weigh Coin.mist (largestFirst listing.firstPage) = 200 * 1000000000 :=
      (weigh_perm (largestFirst_perm _)).trans (weigh_coins 200)
    exact page ▸ weigh_sublist_le (List.take_sublist _ _)
  exact absurd (enough.trans most) (by decide)

/-- A size of 200 SUI is within the cap of a wallet of 201 SUI, and is not funded. -/
theorem pickGasCoinsCovering_short : (200000000000 : ℤ) ≤ min ((wallet.total.val : ℤ) - 1000000000) 1000000000000 ∧
    ¬ Funds .debug "0x5" wallet listing.firstPage 200000000000 1000000000 ∧
    ¬ Funds .release "0x5" wallet listing.firstPage 200000000000 1000000000 :=
  ⟨by decide,page_short .debug,page_short .release⟩

end Funding

end SuiArbitrage.Rust.Live
