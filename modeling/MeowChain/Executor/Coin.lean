import MeowChain.Vm.StraightLine
import MeowChain.Executor.RoundTrip

/-!
# The functions of `meow_coin`

The code of each function is followed to its return or its failure, and what the native functions
recorded on the way is compared with the coins that went in.
-/

set_option autoImplicit false

namespace MeowChain

open MeowCoin Verifier

/-! ## Coins -/

structure Coin where
  id : Address
  balance : UInt64
deriving DecidableEq

def Coin.value (coin : Coin) : Value Unit :=
  .struct () (qualify meowCoinModuleAddress meowCoinObjectName)
    [(meowObjectIdFieldName, meowObjectId coin.id), (balanceFieldName, .u64 coin.balance)]

def coinBalanceValue (amount : UInt64) : Value Unit :=
  .struct () (qualify meowCoinModuleAddress meowCoinBalanceStructName)
    [(amountFieldName, .u64 amount)]

theorem objectAddress_coin (bcs : Bcs) (coin : Coin) :
    objectAddress bcs coin.value = some coin.id :=
  objectAddress_of_id bcs () _ _ _

theorem checkStructQualified_coin (coin : Coin) : checkStructQualified coin.value = true := by
  simp [Coin.value, meowObjectId, checkStructQualified, checkFieldsQualified, meowObjectIdTypeName]

section Typing

variable {W : World} (hobject : W meowObjectModuleAddress = some meowObjectModule)
  (hcoin : W meowCoinModuleAddress = some meowCoinModule)
include hobject hcoin

/-- The values of type `MeowCoin` are coins. -/
theorem hasType_coin_iff {v : Value Unit} :
    HasType W meowCoinModuleAddress v (.struct meowCoinObjectName) ↔ ∃ coin : Coin, v = coin.value := by
  have hdecl : W.declaration (qualify meowCoinModuleAddress meowCoinObjectName) =
      .declared meowCoinModuleAddress coinDef :=
    declaration_qualify hcoin meowCoinObjectName
  have hresolve : resolveName meowCoinModuleAddress meowCoinObjectName =
      qualify meowCoinModuleAddress meowCoinObjectName := rfl
  constructor
  · intro h
    obtain ⟨label, fields, rfl⟩ := hasType_struct h
    rw [hresolve] at h ⊢
    obtain ⟨-, hfields⟩ := h
    rw [hdecl] at hfields
    obtain ⟨idField, fields, ⟨hidName, hid⟩, htail, rfl⟩ :=
      List.forall₂_cons_right_iff.mp (fieldsHaveType_iff.mp hfields)
    obtain ⟨balanceField, fields, ⟨hbalanceName, hbalance⟩, hnil, rfl⟩ :=
      List.forall₂_cons_right_iff.mp htail
    obtain rfl := List.forall₂_nil_right_iff.mp hnil
    obtain ⟨idName, idValue⟩ := idField
    obtain ⟨balanceName, balanceValue⟩ := balanceField
    obtain rfl : idName = meowObjectIdFieldName := hidName
    obtain rfl : balanceName = balanceFieldName := hbalanceName
    obtain ⟨id, rfl⟩ := (hasType_meowObjectId_iff hobject).mp hid
    obtain ⟨balance, rfl⟩ := hasType_u64_iff.mp hbalance
    exact ⟨⟨id, balance⟩, rfl⟩
  · rintro ⟨coin, rfl⟩
    refine ⟨⟨_, rfl, hresolve⟩, ?_⟩
    rw [hdecl]
    refine fieldsHaveType_iff.mpr (.cons ⟨rfl, ?_⟩ (.cons ⟨rfl, rfl⟩ .nil))
    exact (hasType_meowObjectId_iff hobject).mpr ⟨coin.id, rfl⟩

end Typing

/-! ## The machine -/

def coinVm (crypto : NativeCrypto) (deps : DepMap) (config : VmConfig) : Vm Context where
  module := meowCoinModule
  moduleAddr := meowCoinModuleAddress
  deps
  natives := chainNatives crypto
  gasSchedule := {}
  config

def coinFrame (function : Function) (pc : ℕ) (locals : List (Option (Value Unit)))
    (stack : List (Value Unit)) : Frame Unit where
  context := meowCoinModule
  contextAddr := meowCoinModuleAddress
  function
  locals
  stack
  pc

section Natives

variable {crypto : NativeCrypto} {deps : DepMap} {config : VmConfig} {function : Function} {pc : ℕ}
  {locals : List (Option (Value Unit))} {stack : List (Value Unit)} {callers : List (Frame Unit)}
  {ctx : Context}

theorem reaches_freshId (hcode : function.code[pc]? = some (.call nativeFnFreshId)) :
    (coinVm crypto deps config).Reaches 1 30 ⟨coinFrame function pc locals stack, callers, ctx⟩
      ⟨coinFrame function (pc + 1) locals (meowObjectId (ctx.nextFreshId crypto).1 :: stack),
        callers, (ctx.nextFreshId crypto).2⟩ := by
  have hcalls : (coinVm crypto deps config).CallsNative (coinFrame function pc locals stack)
      nativeFnFreshId (freshIdEntry crypto) := ⟨hcode, rfl, rfl, rfl, Nat.zero_le _⟩
  exact reaches_native hcalls rfl rfl rfl

theorem reaches_sender (hcode : function.code[pc]? = some (.call nativeFnSender)) :
    (coinVm crypto deps config).Reaches 1 21 ⟨coinFrame function pc locals stack, callers, ctx⟩
      ⟨coinFrame function (pc + 1) locals (.address ctx.sender :: stack), callers, ctx⟩ := by
  have hcalls : (coinVm crypto deps config).CallsNative (coinFrame function pc locals stack)
      nativeFnSender senderEntry := ⟨hcode, rfl, rfl, rfl, Nat.zero_le _⟩
  exact reaches_native hcalls rfl rfl rfl

theorem reaches_transfer {coin : Coin} {owner : Address}
    (hcode : function.code[pc]? = some (.call nativeFnTransfer)) :
    (coinVm crypto deps config).Reaches 1 40
      ⟨coinFrame function pc locals (.address owner :: coin.value :: stack), callers, ctx⟩
      ⟨coinFrame function (pc + 1) locals (.void :: stack), callers,
        ctx.transfer coin.value owner⟩ := by
  have hcalls : (coinVm crypto deps config).CallsNative
      (coinFrame function pc locals (.address owner :: coin.value :: stack))
      nativeFnTransfer (transferEntry crypto) :=
    ⟨hcode, rfl, rfl, rfl, Nat.le_add_left 2 stack.length⟩
  have hfunc : (transferEntry crypto).func ctx [coin.value, .address owner] =
      (.ret none, ctx.transfer coin.value owner) := by
    simp [transferEntry, objectAddress_coin]
  exact reaches_native hcalls rfl hfunc rfl

theorem reaches_destroy {id : Address}
    (hcode : function.code[pc]? = some (.call nativeFnDestroy)) :
    (coinVm crypto deps config).Reaches 1 30
      ⟨coinFrame function pc locals (meowObjectId id :: stack), callers, ctx⟩
      ⟨coinFrame function (pc + 1) locals (.void :: stack), callers, ctx.destroy id⟩ := by
  have hcalls : (coinVm crypto deps config).CallsNative
      (coinFrame function pc locals (meowObjectId id :: stack))
      nativeFnDestroy (destroyEntry crypto) :=
    ⟨hcode, rfl, rfl, rfl, Nat.le_add_left 1 stack.length⟩
  have hfunc : (destroyEntry crypto).func ctx [meowObjectId id] = (.ret none, ctx.destroy id) := by
    simp [destroyEntry, toMeowObjectId_meowObjectId]
  have hargs : (coinFrame function pc locals (meowObjectId id :: stack)).args 1 =
      [meowObjectId id] := rfl
  exact reaches_native hcalls hargs hfunc rfl

section Abort

variable {code : UInt64} {message : String} {condition : Bool}

theorem callsNative_abort (hcode : function.code[pc]? = some (.call meowVmAbort)) :
    (coinVm crypto deps config).CallsNative
      (coinFrame function pc locals (.str message :: .u64 code :: .bool condition :: stack))
      meowVmAbort (meowVmAbortEntry Context) :=
  ⟨hcode, rfl, rfl, rfl, Nat.le_add_left 3 stack.length⟩

theorem reaches_abort (hcode : function.code[pc]? = some (.call meowVmAbort))
    (hcondition : condition = true) :
    (coinVm crypto deps config).Reaches 1 20
      ⟨coinFrame function pc locals (.str message :: .u64 code :: .bool condition :: stack),
        callers, ctx⟩
      ⟨coinFrame function (pc + 1) locals (.void :: stack), callers, ctx⟩ := by
  subst hcondition
  exact reaches_native (v := none) (callsNative_abort hcode) rfl rfl rfl

theorem finishes_coinAbort (hcode : function.code[pc]? = some (.call meowVmAbort))
    (hcondition : condition = false) :
    (coinVm crypto deps config).Finishes 1 20
      ⟨coinFrame function pc locals (.str message :: .u64 code :: .bool condition :: stack),
        callers, ctx⟩ (.err (.aborted code message)) ctx := by
  subst hcondition
  exact finishes_abort (callsNative_abort hcode) rfl rfl

end Abort

end Natives

/-! ## The functions -/

section Functions

variable (crypto : NativeCrypto) (deps : DepMap) (config : VmConfig) (ctx : Context)

theorem mint_returns (balance : UInt64) (owner : Address) :
    (coinVm crypto deps config).Returns 8 89 mint [.u64 balance, .address owner] ctx none
      ((ctx.nextFreshId crypto).2.transfer
        (Coin.value ⟨(ctx.nextFreshId crypto).1, balance⟩) owner) := by
  intro callers
  let vm := coinVm crypto deps config
  let coin : Coin := ⟨(ctx.nextFreshId crypto).1, balance⟩
  let minted := (ctx.nextFreshId crypto).2
  let locals : List (Option (Value Unit)) := [some (.u64 balance), some (.address owner), none]
  refine ⟨coinFrame mint 8 locals [], rfl, rfl, ?_⟩
  calc
    vm.Reaches 1 30 ⟨_, callers, ctx⟩
        ⟨coinFrame mint 1 locals [meowObjectId coin.id], callers, minted⟩ :=
      reaches_freshId rfl
    vm.Reaches 5 18 _
        ⟨coinFrame mint 6 locals [.address owner, coin.value], callers, minted⟩ :=
      reaches_advance rfl
    vm.Reaches 1 40 _
        ⟨coinFrame mint 7 locals [.void], callers, minted.transfer coin.value owner⟩ :=
      reaches_transfer rfl
    vm.Reaches 1 1 _
        ⟨coinFrame mint 8 locals [], callers, minted.transfer coin.value owner⟩ :=
      reaches_advance rfl

theorem transfer_returns (coin : Coin) (owner : Address) :
    (coinVm crypto deps config).Returns 4 43 MeowCoin.transfer [coin.value, .address owner] ctx none
      (ctx.transfer coin.value owner) := by
  intro callers
  let vm := coinVm crypto deps config
  let locals : List (Option (Value Unit)) := [none, some (.address owner)]
  refine ⟨coinFrame MeowCoin.transfer 4 locals [], rfl, rfl, ?_⟩
  calc
    vm.Reaches 2 2 ⟨_, callers, ctx⟩
        ⟨coinFrame MeowCoin.transfer 2 locals [.address owner, coin.value], callers, ctx⟩ :=
      reaches_advance rfl
    vm.Reaches 1 40 _
        ⟨coinFrame MeowCoin.transfer 3 locals [.void], callers, ctx.transfer coin.value owner⟩ :=
      reaches_transfer rfl
    vm.Reaches 1 1 _
        ⟨coinFrame MeowCoin.transfer 4 locals [], callers, ctx.transfer coin.value owner⟩ :=
      reaches_advance rfl

theorem computes_add : (coinVm crypto deps config).Computes .add checkedAdd :=
  ⟨rfl, fun _ => rfl⟩

theorem computes_sub : (coinVm crypto deps config).Computes .sub checkedSub :=
  ⟨rfl, fun _ => rfl⟩

section Merge

variable (source target : Coin) (recipient : Address)

def mergeFrame : Frame Unit :=
  coinFrame mergeAndTransfer 2
    [some source.value, some target.value, some (.address recipient), none]
    [.u64 source.balance, .u64 target.balance]

theorem reaches_mergeFrame (callers : List (Frame Unit)) :
    (coinVm crypto deps config).Reaches 2 4
      ⟨Frame.new meowCoinModule meowCoinModuleAddress mergeAndTransfer
        [source.value, target.value, .address recipient], callers, ctx⟩
      ⟨mergeFrame source target recipient, callers, ctx⟩ :=
  reaches_advance rfl

theorem mergeAndTransfer_returns (hfits : target.balance.toNat + source.balance.toNat ≤ u64Max) :
    (coinVm crypto deps config).Returns 15 91 mergeAndTransfer
      [source.value, target.value, .address recipient] ctx none
      ((ctx.destroy source.id).transfer
        (Coin.value ⟨target.id, target.balance + source.balance⟩) recipient) := by
  intro callers
  let vm := coinVm crypto deps config
  let merged : Coin := ⟨target.id, target.balance + source.balance⟩
  -- The source is unpacked, and the target waits in its slot until it is sent.
  let locals : Option (Value Unit) → List (Option (Value Unit)) := fun target =>
    [none, target, some (.address recipient), none]
  have hadd : checkedAdd target.balance source.balance = some merged.balance := if_pos hfits
  refine ⟨coinFrame mergeAndTransfer 15 (locals none) [], rfl, rfl, ?_⟩
  calc
    vm.Reaches 2 4 ⟨_, callers, ctx⟩ ⟨mergeFrame source target recipient, callers, ctx⟩ :=
      reaches_mergeFrame crypto deps config ctx source target recipient callers
    vm.Reaches 1 2 _
        ⟨coinFrame mergeAndTransfer 3
          [some source.value, some target.value, some (.address recipient), none]
          [.u64 merged.balance], callers, ctx⟩ :=
      reaches_arith (computes_add crypto deps config) rfl rfl hadd
    vm.Reaches 6 11 _
        ⟨coinFrame mergeAndTransfer 9 (locals (some merged.value)) [meowObjectId source.id],
          callers, ctx⟩ :=
      reaches_advance rfl
    vm.Reaches 1 30 _
        ⟨coinFrame mergeAndTransfer 10 (locals (some merged.value)) [.void], callers,
          ctx.destroy source.id⟩ :=
      reaches_destroy rfl
    vm.Reaches 3 3 _
        ⟨coinFrame mergeAndTransfer 13 (locals none) [.address recipient, merged.value], callers,
          ctx.destroy source.id⟩ :=
      reaches_advance rfl
    vm.Reaches 1 40 _
        ⟨coinFrame mergeAndTransfer 14 (locals none) [.void], callers,
          (ctx.destroy source.id).transfer merged.value recipient⟩ :=
      reaches_transfer rfl
    vm.Reaches 1 1 _
        ⟨coinFrame mergeAndTransfer 15 (locals none) [], callers,
          (ctx.destroy source.id).transfer merged.value recipient⟩ :=
      reaches_advance rfl

theorem mergeAndTransfer_fails (hover : ¬ target.balance.toNat + source.balance.toNat ≤ u64Max) :
    (coinVm crypto deps config).Fails 3 6 mergeAndTransfer
      [source.value, target.value, .address recipient] ctx .arithmeticOverflow ctx := by
  intro callers
  have hadd : checkedAdd target.balance source.balance = none := if_neg hover
  exact (reaches_mergeFrame crypto deps config ctx source target recipient callers).finish
    (finishes_overflow (computes_add crypto deps config) rfl rfl hadd)

def mergeCallFrame (sender : Address) : Frame Unit :=
  coinFrame merge 3 [none, none] [.address sender, target.value, source.value]

theorem reaches_mergeCallFrame (callers : List (Frame Unit)) :
    (coinVm crypto deps config).Reaches 3 23
      ⟨Frame.new meowCoinModule meowCoinModuleAddress merge [source.value, target.value],
        callers, ctx⟩
      ⟨mergeCallFrame source target ctx.sender, callers, ctx⟩ :=
  calc
    (coinVm crypto deps config).Reaches 2 2 _
        ⟨coinFrame merge 2 [none, none] [target.value, source.value], callers, ctx⟩ :=
      reaches_advance rfl
    (coinVm crypto deps config).Reaches 1 21 _ _ := reaches_sender rfl

theorem callsOwn_merge (sender : Address) (hdepth : 1 < config.maxCallDepth) :
    (coinVm crypto deps config).CallsOwn (mergeCallFrame source target sender) []
      "merge_and_transfer" mergeAndTransfer :=
  ⟨rfl, rfl, rfl, rfl, rfl, le_rfl, by decide, hdepth⟩

theorem merge_finishes (hdepth : 1 < config.maxCallDepth)
    (hfits : target.balance.toNat + source.balance.toNat ≤ u64Max) :
    (coinVm crypto deps config).Finishes 22 139
      ⟨Frame.new meowCoinModule meowCoinModuleAddress merge [source.value, target.value], [], ctx⟩
      (.ok none)
      ((ctx.destroy source.id).transfer
        (Coin.value ⟨target.id, target.balance + source.balance⟩) ctx.sender) := by
  let vm := coinVm crypto deps config
  let ctx' := (ctx.destroy source.id).transfer
    (Coin.value ⟨target.id, target.balance + source.balance⟩) ctx.sender
  have hcallee : vm.Returns 15 91 mergeAndTransfer _ ctx none ctx' :=
    mergeAndTransfer_returns crypto deps config ctx source target ctx.sender hfits
  have hreaches : vm.Reaches 21 137
      ⟨Frame.new meowCoinModule meowCoinModuleAddress merge [source.value, target.value], [], ctx⟩
      ⟨coinFrame merge 5 [none, none] [], [], ctx'⟩ :=
    calc
      vm.Reaches 3 23 _ ⟨mergeCallFrame source target ctx.sender, [], ctx⟩ :=
        reaches_mergeCallFrame crypto deps config ctx source target []
      vm.Reaches 17 113 _ ⟨coinFrame merge 4 [none, none] [.void], [], ctx'⟩ :=
        hcallee.called (callsOwn_merge crypto deps config source target ctx.sender hdepth) rfl
      vm.Reaches 1 1 _ ⟨coinFrame merge 5 [none, none] [], [], ctx'⟩ := reaches_advance rfl
  exact hreaches.finish (finishes_ret rfl rfl)

theorem merge_finishes_overflow (hdepth : 1 < config.maxCallDepth)
    (hover : ¬ target.balance.toNat + source.balance.toNat ≤ u64Max) :
    (coinVm crypto deps config).Finishes 7 49
      ⟨Frame.new meowCoinModule meowCoinModuleAddress merge [source.value, target.value], [], ctx⟩
      (.err .arithmeticOverflow) ctx := by
  have hcallee := mergeAndTransfer_fails crypto deps config ctx source target ctx.sender hover
  exact (reaches_mergeCallFrame crypto deps config ctx source target []).finish
    (hcallee.called
      (callsOwn_merge crypto deps config source target ctx.sender hdepth) rfl)

end Merge

section Split

variable (source : Coin) (amount : UInt64) (recipient : Address)

/-- The arguments of the abort native are on the stack. -/
def splitFrame : Frame Unit :=
  coinFrame splitAndTransfer 5
    [some source.value, some (.u64 amount), some (.address recipient), none]
    [.str "The balance is insufficient", .u64 1, .bool (!decide (source.balance < amount))]

theorem reaches_splitFrame (callers : List (Frame Unit)) :
    (coinVm crypto deps config).Reaches 5 8
      ⟨Frame.new meowCoinModule meowCoinModuleAddress splitAndTransfer
        [source.value, .u64 amount, .address recipient], callers, ctx⟩
      ⟨splitFrame source amount recipient, callers, ctx⟩ :=
  reaches_advance rfl

/-- The context of a split: a new coin is sent, then what is left of the old one. -/
def splitContext : Context :=
  let created := ctx.nextFreshId crypto
  (created.2.transfer (Coin.value ⟨created.1, amount⟩) recipient).transfer
    (Coin.value ⟨source.id, source.balance - amount⟩) ctx.sender

theorem splitAndTransfer_returns (hle : amount ≤ source.balance) :
    (coinVm crypto deps config).Returns 23 191 splitAndTransfer
      [source.value, .u64 amount, .address recipient] ctx none
      (splitContext crypto ctx source amount recipient) := by
  intro callers
  let vm := coinVm crypto deps config
  let rest : Coin := ⟨source.id, source.balance - amount⟩
  let created : Coin := ⟨(ctx.nextFreshId crypto).1, amount⟩
  let minted := (ctx.nextFreshId crypto).2
  let locals : Option (Value Unit) → List (Option (Value Unit)) := fun source =>
    [source, some (.u64 amount), some (.address recipient), none]
  have hsub : checkedSub source.balance amount = some rest.balance := if_pos hle
  have hcondition : (!decide (source.balance < amount)) = true := by
    simpa using UInt64.not_lt.mpr hle
  refine ⟨coinFrame splitAndTransfer 23 (locals none) [], rfl, rfl, ?_⟩
  calc
    vm.Reaches 5 8 ⟨_, callers, ctx⟩ ⟨splitFrame source amount recipient, callers, ctx⟩ :=
      reaches_splitFrame crypto deps config ctx source amount recipient callers
    vm.Reaches 1 20 _
        ⟨coinFrame splitAndTransfer 6 (locals (some source.value)) [.void], callers, ctx⟩ :=
      reaches_abort rfl hcondition
    vm.Reaches 3 4 _
        ⟨coinFrame splitAndTransfer 9 (locals (some source.value))
          [.u64 amount, .u64 source.balance], callers, ctx⟩ :=
      reaches_advance rfl
    vm.Reaches 1 2 _
        ⟨coinFrame splitAndTransfer 10 (locals (some source.value)) [.u64 rest.balance], callers,
          ctx⟩ :=
      reaches_arith (computes_sub crypto deps config) rfl rfl hsub
    vm.Reaches 1 5 _
        ⟨coinFrame splitAndTransfer 11 (locals (some rest.value)) [], callers, ctx⟩ :=
      reaches_advance rfl
    vm.Reaches 1 30 _
        ⟨coinFrame splitAndTransfer 12 (locals (some rest.value)) [meowObjectId created.id],
          callers, minted⟩ :=
      reaches_freshId rfl
    vm.Reaches 5 18 _
        ⟨coinFrame splitAndTransfer 17 (locals (some rest.value))
          [.address recipient, created.value], callers, minted⟩ :=
      reaches_advance rfl
    vm.Reaches 1 40 _
        ⟨coinFrame splitAndTransfer 18 (locals (some rest.value)) [.void], callers,
          minted.transfer created.value recipient⟩ :=
      reaches_transfer rfl
    vm.Reaches 2 2 _
        ⟨coinFrame splitAndTransfer 20 (locals none) [rest.value], callers,
          minted.transfer created.value recipient⟩ :=
      reaches_advance rfl
    vm.Reaches 1 21 _
        ⟨coinFrame splitAndTransfer 21 (locals none) [.address ctx.sender, rest.value], callers,
          minted.transfer created.value recipient⟩ :=
      reaches_sender rfl
    vm.Reaches 1 40 _
        ⟨coinFrame splitAndTransfer 22 (locals none) [.void], callers,
          splitContext crypto ctx source amount recipient⟩ :=
      reaches_transfer rfl
    vm.Reaches 1 1 _
        ⟨coinFrame splitAndTransfer 23 (locals none) [], callers,
          splitContext crypto ctx source amount recipient⟩ :=
      reaches_advance rfl

theorem splitAndTransfer_fails (hlt : ¬ amount ≤ source.balance) :
    (coinVm crypto deps config).Fails 6 28 splitAndTransfer
      [source.value, .u64 amount, .address recipient] ctx
      (.aborted 1 "The balance is insufficient") ctx := by
  intro callers
  have hcondition : (!decide (source.balance < amount)) = false := by
    simpa using UInt64.not_le.mp hlt
  exact (reaches_splitFrame crypto deps config ctx source amount recipient callers).finish
    (finishes_coinAbort rfl hcondition)

def splitCallFrame (sender : Address) : Frame Unit :=
  coinFrame split 3 [none, some (.u64 amount)] [.address sender, .u64 amount, source.value]

theorem reaches_splitCallFrame (callers : List (Frame Unit)) :
    (coinVm crypto deps config).Reaches 3 23
      ⟨Frame.new meowCoinModule meowCoinModuleAddress split [source.value, .u64 amount],
        callers, ctx⟩
      ⟨splitCallFrame source amount ctx.sender, callers, ctx⟩ :=
  calc
    (coinVm crypto deps config).Reaches 2 2 _
        ⟨coinFrame split 2 [none, some (.u64 amount)] [.u64 amount, source.value], callers, ctx⟩ :=
      reaches_advance rfl
    (coinVm crypto deps config).Reaches 1 21 _ _ := reaches_sender rfl

theorem callsOwn_split (sender : Address) (hdepth : 1 < config.maxCallDepth) :
    (coinVm crypto deps config).CallsOwn (splitCallFrame source amount sender) []
      "split_and_transfer" splitAndTransfer :=
  ⟨rfl, rfl, rfl, rfl, rfl, le_rfl, by decide, hdepth⟩

theorem split_finishes (hdepth : 1 < config.maxCallDepth) (hle : amount ≤ source.balance) :
    (coinVm crypto deps config).Finishes 30 239
      ⟨Frame.new meowCoinModule meowCoinModuleAddress split [source.value, .u64 amount], [], ctx⟩
      (.ok none) (splitContext crypto ctx source amount ctx.sender) := by
  let vm := coinVm crypto deps config
  let ctx' := splitContext crypto ctx source amount ctx.sender
  let locals : List (Option (Value Unit)) := [none, some (.u64 amount)]
  have hcallee : vm.Returns 23 191 splitAndTransfer _ ctx none ctx' :=
    splitAndTransfer_returns crypto deps config ctx source amount ctx.sender hle
  have hreaches : vm.Reaches 29 237
      ⟨Frame.new meowCoinModule meowCoinModuleAddress split [source.value, .u64 amount], [], ctx⟩
      ⟨coinFrame split 5 locals [], [], ctx'⟩ :=
    calc
      vm.Reaches 3 23 _ ⟨splitCallFrame source amount ctx.sender, [], ctx⟩ :=
        reaches_splitCallFrame crypto deps config ctx source amount []
      vm.Reaches 25 213 _ ⟨coinFrame split 4 locals [.void], [], ctx'⟩ :=
        hcallee.called (callsOwn_split crypto deps config source amount ctx.sender hdepth) rfl
      vm.Reaches 1 1 _ ⟨coinFrame split 5 locals [], [], ctx'⟩ := reaches_advance rfl
  exact hreaches.finish (finishes_ret rfl rfl)

theorem split_finishes_insufficient (hdepth : 1 < config.maxCallDepth)
    (hlt : ¬ amount ≤ source.balance) :
    (coinVm crypto deps config).Finishes 10 71
      ⟨Frame.new meowCoinModule meowCoinModuleAddress split [source.value, .u64 amount], [], ctx⟩
      (.err (.aborted 1 "The balance is insufficient")) ctx := by
  have hcallee := splitAndTransfer_fails crypto deps config ctx source amount ctx.sender hlt
  exact (reaches_splitCallFrame crypto deps config ctx source amount []).finish
    (hcallee.called
      (callsOwn_split crypto deps config source amount ctx.sender hdepth) rfl)

end Split

section Balances

theorem toBalance_returns (coin : Coin) :
    (coinVm crypto deps config).Returns 9 50 toBalance [coin.value] ctx
      (some (coinBalanceValue coin.balance)) (ctx.destroy coin.id) := by
  intro callers
  let vm := coinVm crypto deps config
  let locals : List (Option (Value Unit)) := [none, none, some (.u64 coin.balance)]
  refine ⟨coinFrame toBalance 9 locals [coinBalanceValue coin.balance], rfl, rfl, ?_⟩
  calc
    vm.Reaches 5 6 ⟨_, callers, ctx⟩
        ⟨coinFrame toBalance 5 locals [meowObjectId coin.id], callers, ctx⟩ :=
      reaches_advance rfl
    vm.Reaches 1 30 _
        ⟨coinFrame toBalance 6 locals [.void], callers, ctx.destroy coin.id⟩ :=
      reaches_destroy rfl
    vm.Reaches 3 14 _
        ⟨coinFrame toBalance 9 locals [coinBalanceValue coin.balance], callers,
          ctx.destroy coin.id⟩ :=
      reaches_advance rfl

theorem fromBalance_returns (amount : UInt64) :
    (coinVm crypto deps config).Returns 6 48 fromBalance [coinBalanceValue amount] ctx
      (some (Coin.value ⟨(ctx.nextFreshId crypto).1, amount⟩)) (ctx.nextFreshId crypto).2 := by
  intro callers
  let vm := coinVm crypto deps config
  let coin : Coin := ⟨(ctx.nextFreshId crypto).1, amount⟩
  let locals : List (Option (Value Unit)) := [none, some (.u64 amount)]
  refine ⟨coinFrame fromBalance 6 locals [coin.value], rfl, rfl, ?_⟩
  calc
    vm.Reaches 3 3 ⟨_, callers, ctx⟩ ⟨coinFrame fromBalance 3 locals [], callers, ctx⟩ :=
      reaches_advance rfl
    vm.Reaches 1 30 _
        ⟨coinFrame fromBalance 4 locals [meowObjectId coin.id], callers,
          (ctx.nextFreshId crypto).2⟩ :=
      reaches_freshId rfl
    vm.Reaches 2 15 _
        ⟨coinFrame fromBalance 6 locals [coin.value], callers, (ctx.nextFreshId crypto).2⟩ :=
      reaches_advance rfl

end Balances

end Functions

/-! ## Calls -/

/-- The calls that move coins. -/
inductive CoinCall where
  | transfer (coin : Coin) (owner : Address)
  | mergeAndTransfer (source target : Coin) (recipient : Address)
  | merge (source target : Coin)
  | splitAndTransfer (source : Coin) (amount : UInt64) (recipient : Address)
  | split (source : Coin) (amount : UInt64)

namespace CoinCall

def function : CoinCall → Function
  | transfer .. => MeowCoin.transfer
  | mergeAndTransfer .. => MeowCoin.mergeAndTransfer
  | merge .. => MeowCoin.merge
  | splitAndTransfer .. => MeowCoin.splitAndTransfer
  | split .. => MeowCoin.split

def args : CoinCall → List (Value Unit)
  | transfer coin owner => [coin.value, .address owner]
  | mergeAndTransfer source target recipient =>
    [source.value, target.value, .address recipient]
  | merge source target => [source.value, target.value]
  | splitAndTransfer source amount recipient => [source.value, .u64 amount, .address recipient]
  | split source amount => [source.value, .u64 amount]

def inputs : CoinCall → List Coin
  | transfer coin _ => [coin]
  | mergeAndTransfer source target _ | merge source target => [source, target]
  | splitAndTransfer source _ _ | split source _ => [source]

/-- The merged balance is a `u64`, and no more is split off than there is. -/
def Covered : CoinCall → Prop
  | transfer .. => True
  | mergeAndTransfer source target _ | merge source target =>
    source.balance.toNat + target.balance.toNat ≤ u64Max
  | splitAndTransfer source amount _ | split source amount =>
    amount.toNat ≤ source.balance.toNat

def error : CoinCall → VmError
  | splitAndTransfer .. | split .. => .aborted 1 "The balance is insufficient"
  | _ => .arithmeticOverflow

def consumed : CoinCall → List Coin
  | mergeAndTransfer source _ _ | merge source _ => [source]
  | _ => []

variable (crypto : NativeCrypto) (ctx : Context)

def created : CoinCall → List Coin
  | splitAndTransfer _ amount _ | split _ amount => [⟨(ctx.nextFreshId crypto).1, amount⟩]
  | _ => []

def sent : CoinCall → List (Coin × Address)
  | transfer coin owner => [(coin, owner)]
  | mergeAndTransfer source target recipient =>
    [(⟨target.id, target.balance + source.balance⟩, recipient)]
  | merge source target => [(⟨target.id, target.balance + source.balance⟩, ctx.sender)]
  | splitAndTransfer source amount recipient =>
    [(⟨(ctx.nextFreshId crypto).1, amount⟩, recipient),
      (⟨source.id, source.balance - amount⟩, ctx.sender)]
  | split source amount =>
    [(⟨(ctx.nextFreshId crypto).1, amount⟩, ctx.sender),
      (⟨source.id, source.balance - amount⟩, ctx.sender)]

def after : CoinCall → Context
  | transfer coin owner => ctx.transfer coin.value owner
  | mergeAndTransfer source target recipient =>
    (ctx.destroy source.id).transfer
      (Coin.value ⟨target.id, target.balance + source.balance⟩) recipient
  | merge source target =>
    (ctx.destroy source.id).transfer
      (Coin.value ⟨target.id, target.balance + source.balance⟩) ctx.sender
  | splitAndTransfer source amount recipient => splitContext crypto ctx source amount recipient
  | split source amount => splitContext crypto ctx source amount ctx.sender

variable (call : CoinCall)

theorem transfers_after : (call.after crypto ctx).transfers =
    ctx.transfers ++ (call.sent crypto ctx).map fun s => (s.1.value, s.2) := by
  cases call <;> simp [after, sent, splitContext, Context.transfer, Context.destroy,
    Context.nextFreshId]

theorem destroyed_after : (call.after crypto ctx).destroyed =
    ctx.destroyed ++ call.consumed.map (·.id) := by
  cases call <;> simp [after, consumed, splitContext, Context.transfer, Context.destroy,
    Context.nextFreshId]

theorem freshIds_after : (call.after crypto ctx).freshIds =
    ctx.freshIds ++ (call.created crypto ctx).map (·.id) := by
  cases call <;> simp [after, created, splitContext, Context.transfer, Context.destroy,
    Context.nextFreshId]

/-- What is sent is worth what came in. -/
theorem sum_sent (h : call.Covered) :
    ((call.sent crypto ctx).map (·.1.balance.toNat)).sum =
      (call.inputs.map (·.balance.toNat)).sum := by
  have hmerge : ∀ source target : Coin, source.balance.toNat + target.balance.toNat ≤ u64Max →
      (target.balance + source.balance).toNat = source.balance.toNat + target.balance.toNat := by
    intro source target hle
    have hlt : target.balance.toNat + source.balance.toNat < 2 ^ 64 := by
      unfold u64Max at hle
      omega
    rw [UInt64.toNat_add, Nat.mod_eq_of_lt hlt, Nat.add_comm]
  have hsplit : ∀ (source : Coin) (amount : UInt64), amount.toNat ≤ source.balance.toNat →
      amount.toNat + (source.balance - amount).toNat = source.balance.toNat := by
    intro source amount hle
    rw [UInt64.toNat_sub_of_le _ _ (UInt64.le_iff_toNat_le.mpr hle)]
    omega
  cases call with
  | transfer coin owner => rfl
  | mergeAndTransfer source target recipient => simpa [sent, inputs] using hmerge source target h
  | merge source target => simpa [sent, inputs] using hmerge source target h
  | splitAndTransfer source amount recipient =>
    simpa [sent, inputs] using hsplit source amount h
  | split source amount => simpa [sent, inputs] using hsplit source amount h

/-- The coins that went in or were created are sent or used up, each once. -/
theorem ids_perm :
    ((call.sent crypto ctx).map (·.1.id) ++ call.consumed.map (·.id)).Perm
      (call.inputs.map (·.id) ++ (call.created crypto ctx).map (·.id)) := by
  cases call with
  | transfer coin owner => exact .refl _
  | mergeAndTransfer source target recipient | merge source target => exact .swap ..
  | splitAndTransfer source amount recipient | split source amount => exact .swap ..

theorem created_sent {coin : Coin} (h : coin ∈ call.created crypto ctx) :
    ∃ owner, (coin, owner) ∈ call.sent crypto ctx := by
  cases call with
  | transfer | mergeAndTransfer | merge => cases h
  | splitAndTransfer | split =>
    obtain rfl := List.mem_singleton.mp h
    exact ⟨_, List.mem_cons_self⟩

/-! ### Runs -/

def gasBound : ℕ := 239

variable (deps : DepMap) (config : VmConfig)

theorem finishes (hdepth : 1 < config.maxCallDepth) (h : call.Covered) :
    ∃ turns cost, turns ≤ cost ∧ cost ≤ gasBound ∧
      (coinVm crypto deps config).Finishes turns cost
        ⟨Frame.new meowCoinModule meowCoinModuleAddress call.function call.args, [], ctx⟩
        (.ok none) (call.after crypto ctx) := by
  cases call with
  | transfer coin owner =>
    exact ⟨5, 45, by decide, by decide,
      (transfer_returns crypto deps config ctx coin owner).finishes⟩
  | mergeAndTransfer source target recipient =>
    rw [Covered, Nat.add_comm] at h
    exact ⟨16, 93, by decide, by decide,
      (mergeAndTransfer_returns crypto deps config ctx source target recipient h).finishes⟩
  | merge source target =>
    rw [Covered, Nat.add_comm] at h
    exact ⟨_, _, by decide, by decide, merge_finishes crypto deps config ctx source target hdepth h⟩
  | splitAndTransfer source amount recipient =>
    have hle := UInt64.le_iff_toNat_le.mpr h
    exact ⟨24, 193, by decide, by decide,
      (splitAndTransfer_returns crypto deps config ctx source amount recipient hle).finishes⟩
  | split source amount =>
    have hle := UInt64.le_iff_toNat_le.mpr h
    exact ⟨_, _, by decide, by decide, split_finishes crypto deps config ctx source amount hdepth hle⟩

theorem finishes_with_error (hdepth : 1 < config.maxCallDepth) (h : ¬ call.Covered) :
    ∃ turns cost, turns ≤ cost ∧ cost ≤ gasBound ∧
      (coinVm crypto deps config).Finishes turns cost
        ⟨Frame.new meowCoinModule meowCoinModuleAddress call.function call.args, [], ctx⟩
        (.err call.error) ctx := by
  cases call with
  | transfer coin owner => exact absurd trivial h
  | mergeAndTransfer source target recipient =>
    rw [Covered, Nat.add_comm] at h
    exact ⟨_, _, by decide, by decide,
      mergeAndTransfer_fails crypto deps config ctx source target recipient h []⟩
  | merge source target =>
    rw [Covered, Nat.add_comm] at h
    exact ⟨_, _, by decide, by decide,
      merge_finishes_overflow crypto deps config ctx source target hdepth h⟩
  | splitAndTransfer source amount recipient =>
    have hlt := fun hle => h (UInt64.le_iff_toNat_le.mp hle)
    exact ⟨_, _, by decide, by decide,
      splitAndTransfer_fails crypto deps config ctx source amount recipient hlt []⟩
  | split source amount =>
    have hlt := fun hle => h (UInt64.le_iff_toNat_le.mp hle)
    exact ⟨_, _, by decide, by decide,
      split_finishes_insufficient crypto deps config ctx source amount hdepth hlt⟩

theorem callable (hdeps : deps.size ≤ config.maxDepModules) (hdepth : 1 < config.maxCallDepth) :
    (coinVm crypto deps config).Callable call.function.name call.function call.args where
  deps_le := hdeps
  notNative := by cases call <;> rfl
  declared := by cases call <;> rfl
  allowed := by cases call <;> exact .inl rfl
  qualified := by cases call <;> simp [args, checkStructQualified_coin, checkStructQualified]
  slots := by cases call <;> exact Nat.le_of_ble_eq_true rfl
  depth := Nat.lt_of_succ_lt hdepth

theorem exists_of_wellTyped {W : World} (hobject : W meowObjectModuleAddress = some meowObjectModule)
    (hcoin : W meowCoinModuleAddress = some meowCoinModule) {function : Function}
    (hfunction : function ∈ [MeowCoin.transfer, MeowCoin.mergeAndTransfer, MeowCoin.merge,
      MeowCoin.splitAndTransfer, MeowCoin.split]) {args : List (Value Unit)}
    (hargs : List.Forall₂ (HasType W meowCoinModuleAddress) args
      (function.params.map fun p => fromType p.2)) :
    ∃ call : CoinCall, call.function = function ∧ call.args = args := by
  have hcoins : ∀ {v : Value Unit}, HasType W meowCoinModuleAddress v (fromType coinType) →
      ∃ coin : Coin, v = coin.value := (hasType_coin_iff hobject hcoin).mp
  simp only [List.mem_cons, List.not_mem_nil, or_false] at hfunction
  rcases hfunction with rfl | rfl | rfl | rfl | rfl
  · obtain _ | ⟨hfirst, _ | ⟨howner, _ | _⟩⟩ := hargs
    obtain ⟨coin, rfl⟩ := hcoins hfirst
    obtain ⟨owner, rfl⟩ := hasType_address_iff.mp howner
    exact ⟨.transfer coin owner, rfl, rfl⟩
  · obtain _ | ⟨hsource, _ | ⟨htarget, _ | ⟨hrecipient, _ | _⟩⟩⟩ := hargs
    obtain ⟨source, rfl⟩ := hcoins hsource
    obtain ⟨target, rfl⟩ := hcoins htarget
    obtain ⟨recipient, rfl⟩ := hasType_address_iff.mp hrecipient
    exact ⟨.mergeAndTransfer source target recipient, rfl, rfl⟩
  · obtain _ | ⟨hsource, _ | ⟨htarget, _ | _⟩⟩ := hargs
    obtain ⟨source, rfl⟩ := hcoins hsource
    obtain ⟨target, rfl⟩ := hcoins htarget
    exact ⟨.merge source target, rfl, rfl⟩
  · obtain _ | ⟨hsource, _ | ⟨hamount, _ | ⟨hrecipient, _ | _⟩⟩⟩ := hargs
    obtain ⟨source, rfl⟩ := hcoins hsource
    obtain ⟨amount, rfl⟩ := hasType_u64_iff.mp hamount
    obtain ⟨recipient, rfl⟩ := hasType_address_iff.mp hrecipient
    exact ⟨.splitAndTransfer source amount recipient, rfl, rfl⟩
  · obtain _ | ⟨hsource, _ | ⟨hamount, _ | _⟩⟩ := hargs
    obtain ⟨source, rfl⟩ := hcoins hsource
    obtain ⟨amount, rfl⟩ := hasType_u64_iff.mp hamount
    exact ⟨.split source amount, rfl, rfl⟩

/-- What a call does with its coins. -/
structure Conserves (call : CoinCall) (crypto : NativeCrypto) (ctx : Context)
    (final : Final Unit Context) : Prop where
  /-- A split fails exactly when it asks for too much, a merge exactly when the sum overflows. -/
  ok_iff : final.outcome = .ok none ↔ call.Covered
  err_iff : final.outcome = .err call.error ↔ ¬ call.Covered
  /-- The coins sent are worth as much as those that went in; what is not sent is destroyed, and
  only a split creates a coin, of exactly the amount asked for. -/
  sends : call.Covered → ∃ sent : List (Coin × Address),
    final.ctx.transfers = ctx.transfers ++ sent.map (fun s => (s.1.value, s.2)) ∧
    (sent.map (·.1.balance.toNat)).sum = (call.inputs.map (·.balance.toNat)).sum ∧
    final.ctx.destroyed = ctx.destroyed ++ call.consumed.map (·.id) ∧
    final.ctx.freshIds = ctx.freshIds ++ (call.created crypto ctx).map (·.id) ∧
    (∀ coin ∈ call.created crypto ctx, ∃ owner, (coin, owner) ∈ sent) ∧
    (sent.map (·.1.id) ++ call.consumed.map (·.id)).Perm
      (call.inputs.map (·.id) ++ (call.created crypto ctx).map (·.id))

theorem conserves (hdeps : deps.size ≤ config.maxDepModules) (hdepth : 1 < config.maxCallDepth)
    {gas : GasMeter} (hgas : gas.Covers gasBound) :
    call.Conserves crypto ctx ((coinVm crypto deps config).call (fun _ => ()) call.function.name
      call.args gas ctx) := by
  have hcallable := call.callable crypto deps config hdeps hdepth
  by_cases h : call.Covered
  · obtain ⟨turns, cost, hturns, hcost, hfinishes⟩ :=
      call.finishes crypto ctx deps config hdepth h
    rw [hcallable.call hfinishes hturns (hgas.mono hcost)]
    refine ⟨⟨fun _ => h, fun _ => rfl⟩, ⟨nofun, fun hnot => absurd h hnot⟩, fun _ => ?_⟩
    exact ⟨call.sent crypto ctx, call.transfers_after crypto ctx, call.sum_sent crypto ctx h,
      call.destroyed_after crypto ctx, call.freshIds_after crypto ctx,
      fun coin => call.created_sent crypto ctx, call.ids_perm crypto ctx⟩
  · obtain ⟨turns, cost, hturns, hcost, hfinishes⟩ :=
      call.finishes_with_error crypto ctx deps config hdepth h
    rw [hcallable.call hfinishes hturns (hgas.mono hcost)]
    exact ⟨⟨nofun, fun hcovered => absurd hcovered h⟩, ⟨fun _ => h, fun _ => rfl⟩,
      fun hcovered => absurd hcovered h⟩

end CoinCall

section Calls

variable (crypto : NativeCrypto) {deps : DepMap} {config : VmConfig}
  (hdeps : deps.size ≤ config.maxDepModules) (hdepth : 1 < config.maxCallDepth) (ctx : Context)
  {gas : GasMeter} (hgas : gas.Covers CoinCall.gasBound)
include hdeps hdepth hgas

theorem call_toBalance (coin : Coin) :
    (coinVm crypto deps config).call (fun _ => ()) toBalance.name [coin.value] gas ctx =
      ⟨.ok (some (coinBalanceValue coin.balance)), gas.plus 52, ctx.destroy coin.id⟩ := by
  have hcallable : (coinVm crypto deps config).Callable toBalance.name toBalance [coin.value] :=
    ⟨hdeps, rfl, rfl, .inl rfl, by simp [checkStructQualified_coin], Nat.le_of_ble_eq_true rfl,
      Nat.lt_of_succ_lt hdepth⟩
  exact hcallable.call (toBalance_returns crypto deps config ctx coin).finishes
    (Nat.le_of_ble_eq_true rfl) (hgas.mono (Nat.le_of_ble_eq_true rfl))

theorem call_fromBalance (amount : UInt64) :
    (coinVm crypto deps config).call (fun _ => ()) fromBalance.name [coinBalanceValue amount] gas
        ctx =
      ⟨.ok (some (Coin.value ⟨(ctx.nextFreshId crypto).1, amount⟩)), gas.plus 50,
        (ctx.nextFreshId crypto).2⟩ := by
  have hqualified : checkStructQualified (coinBalanceValue amount) = true := by
    simp [coinBalanceValue, checkStructQualified, checkFieldsQualified]
  have hcallable : (coinVm crypto deps config).Callable fromBalance.name fromBalance
      [coinBalanceValue amount] :=
    ⟨hdeps, rfl, rfl, .inl rfl, by simp [hqualified], Nat.le_of_ble_eq_true rfl,
      Nat.lt_of_succ_lt hdepth⟩
  exact hcallable.call (fromBalance_returns crypto deps config ctx amount).finishes
    (Nat.le_of_ble_eq_true rfl) (hgas.mono (Nat.le_of_ble_eq_true rfl))

/-- On arguments of the declared types, the functions that move coins neither create nor lose
value, and a coin that is turned into a balance can be had back, under a fresh id. -/
theorem coin_value_conserved {W : World}
    (hobject : W meowObjectModuleAddress = some meowObjectModule)
    (hcoin : W meowCoinModuleAddress = some meowCoinModule) :
    (∀ function ∈ [MeowCoin.transfer, MeowCoin.mergeAndTransfer, MeowCoin.merge,
        MeowCoin.splitAndTransfer, MeowCoin.split], ∀ args,
      List.Forall₂ (HasType W meowCoinModuleAddress) args
        (function.params.map fun p => fromType p.2) →
      ∃ call : CoinCall, call.function = function ∧ call.args = args ∧
        call.Conserves crypto ctx
          ((coinVm crypto deps config).call (fun _ => ()) function.name args gas ctx)) ∧
    ∀ v, HasType W meowCoinModuleAddress v (.struct meowCoinObjectName) →
      ∃ coin : Coin, v = coin.value ∧ ∃ balance,
        (coinVm crypto deps config).call (fun _ => ()) toBalance.name [v] gas ctx =
          ⟨.ok (some balance), gas.plus 52, ctx.destroy coin.id⟩ ∧
        ∀ later : Context,
          (coinVm crypto deps config).call (fun _ => ()) fromBalance.name [balance] gas later =
            ⟨.ok (some (Coin.value ⟨(later.nextFreshId crypto).1, coin.balance⟩)), gas.plus 50,
              (later.nextFreshId crypto).2⟩ := by
  constructor
  · intro function hfunction args hargs
    obtain ⟨call, rfl, rfl⟩ := CoinCall.exists_of_wellTyped hobject hcoin hfunction hargs
    exact ⟨call, rfl, rfl, call.conserves crypto ctx deps config hdeps hdepth hgas⟩
  · intro v hv
    obtain ⟨coin, rfl⟩ := (hasType_coin_iff hobject hcoin).mp hv
    exact ⟨coin, rfl, _, call_toBalance crypto hdeps hdepth ctx hgas coin,
      fun later => call_fromBalance crypto hdeps hdepth later hgas coin.balance⟩

end Calls

section Sample

def Sample.coinCrypto : NativeCrypto where
  derive _ _ n := BitVec.ofNat 256 (n + 100)
  seed digest _ := digest
  random _ _ := 0
  bcs := bcsLayout

def Sample.coinContext : Context :=
  .new coinCrypto 1 2 3 4

def Sample.frameworkWorld : World := fun a =>
  if a = meowObjectModuleAddress then some meowObjectModule
  else if a = meowCoinModuleAddress then some meowCoinModule
  else none

open Sample in
theorem coin_value_conserved_split :
    objectDeps.size ≤ vmConfig.maxDepModules ∧ 1 < vmConfig.maxCallDepth ∧
    (GasMeter.new 1000).Covers CoinCall.gasBound ∧
    frameworkWorld meowObjectModuleAddress = some meowObjectModule ∧
    frameworkWorld meowCoinModuleAddress = some meowCoinModule ∧
    ∃ call : CoinCall, call.function = MeowCoin.split ∧
      call.args = [Coin.value ⟨7, 50⟩, .u64 20] ∧
      call.Conserves coinCrypto coinContext
        ((coinVm coinCrypto objectDeps vmConfig).call (fun _ => ()) MeowCoin.split.name
          [Coin.value ⟨7, 50⟩, .u64 20] (GasMeter.new 1000) coinContext) := by
  have hdeps : objectDeps.size ≤ vmConfig.maxDepModules := by decide +kernel
  have hdepth : 1 < vmConfig.maxCallDepth := by decide
  have hgas : (GasMeter.new 1000).Covers CoinCall.gasBound := ⟨by decide, by decide⟩
  have hobject : frameworkWorld meowObjectModuleAddress = some meowObjectModule := if_pos rfl
  have hcoin : frameworkWorld meowCoinModuleAddress = some meowCoinModule := by
    rw [frameworkWorld, if_neg (by decide), if_pos rfl]
  have htyped : List.Forall₂ (HasType frameworkWorld meowCoinModuleAddress)
      [Coin.value ⟨7, 50⟩, .u64 20] (MeowCoin.split.params.map fun p => fromType p.2) :=
    .cons ((hasType_coin_iff hobject hcoin).mpr ⟨⟨7, 50⟩, rfl⟩) (.cons rfl .nil)
  exact ⟨hdeps, hdepth, hgas, hobject, hcoin,
    (coin_value_conserved coinCrypto hdeps hdepth coinContext hgas hobject hcoin).1 _ (by simp) _
      htyped⟩

end Sample

end MeowChain
