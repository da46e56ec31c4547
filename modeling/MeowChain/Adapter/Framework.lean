import MeowChain.Adapter.Natives

/-!
# The framework modules

`meow_object` and `meow_coin` as the compiler builds them from their sources. They are stored at
fixed addresses from genesis on.
-/

set_option autoImplicit false

namespace MeowChain

def meowObjectModule : Module where
  name := "meow_object"
  imports := []
  structs := [{ name := "Id", fields := [⟨"inner", .address⟩], isPublic := true }]
  functions := []

def meowCoinModuleAddress : Address := Address.suffixed 0x20

def meowCoinObjectName : String := "MeowCoin"

def meowCoinBalanceStructName : String := "MeowCoinBalance"

def balanceFieldName : String := "balance"

def amountFieldName : String := "amount"

def meowCoinMintFunctionName : String := "mint"

namespace MeowCoin

def coinFields : List String := [meowObjectIdFieldName, balanceFieldName]

def coinType : Ty := .struct meowCoinObjectName

def newCoin : Instruction := .newStruct meowCoinObjectName coinFields

def unpackCoin : Instruction := .unpackStruct meowCoinObjectName coinFields

def coinDef : StructDef where
  name := meowCoinObjectName
  fields := [⟨meowObjectIdFieldName, meowObjectIdType⟩, ⟨balanceFieldName, .u64⟩]
  isPublic := true

def coinBalanceDef : StructDef where
  name := meowCoinBalanceStructName
  fields := [⟨amountFieldName, .u64⟩]
  isPublic := true

/-- Private: only system transactions may call it. -/
def mint : Function where
  name := meowCoinMintFunctionName
  isPublic := false
  params := [("balance", .u64), ("owner", .address)]
  returnType := none
  localCount := 3
  code := [
    .call nativeFnFreshId, .load 0, newCoin, .store 2,
    .load 2, .load 1, .call nativeFnTransfer, .pop,
    .ret]

def balance : Function where
  name := "balance"
  isPublic := true
  params := [("coin", coinType)]
  returnType := some (.tuple [coinType, .u64])
  localCount := 2
  code := [
    .loadField 0 [balanceFieldName], .store 1,
    .load 0, .load 1, .makeTuple 2, .ret]

def burn : Function where
  name := "burn"
  isPublic := true
  params := [("coin", coinType)]
  returnType := none
  localCount := 2
  code := [
    .load 0, unpackCoin, .store 1, .pop,
    .load 1, .call nativeFnDestroy, .pop,
    .ret]

def transfer : Function where
  name := "transfer"
  isPublic := true
  params := [("coin", coinType), ("to", .address)]
  returnType := none
  localCount := 2
  code := [.load 0, .load 1, .call nativeFnTransfer, .pop, .ret]

def mergeAndTransfer : Function where
  name := "merge_and_transfer"
  isPublic := true
  params := [("from", coinType), ("to", coinType), ("recipient", .address)]
  returnType := none
  localCount := 4
  code := [
    .loadField 1 [balanceFieldName], .loadField 0 [balanceFieldName], .add,
    .storeField 1 [balanceFieldName],
    .load 0, unpackCoin, .store 3, .pop,
    .load 3, .call nativeFnDestroy, .pop,
    .load 1, .load 2, .call nativeFnTransfer, .pop,
    .ret]

def merge : Function where
  name := "merge"
  isPublic := true
  params := [("from", coinType), ("to", coinType)]
  returnType := none
  localCount := 2
  code := [.load 0, .load 1, .call nativeFnSender, .call "merge_and_transfer", .pop, .ret]

def splitAndTransfer : Function where
  name := "split_and_transfer"
  isPublic := true
  params := [("from", coinType), ("amount", .u64), ("to", .address)]
  returnType := none
  localCount := 4
  code := [
    .loadField 0 [balanceFieldName], .load 1, .ge, .pushU64 1,
    .pushStr "The balance is insufficient", .call meowVmAbort, .pop,
    .loadField 0 [balanceFieldName], .load 1, .sub, .storeField 0 [balanceFieldName],
    .call nativeFnFreshId, .load 1, newCoin, .store 3,
    .load 3, .load 2, .call nativeFnTransfer, .pop,
    .load 0, .call nativeFnSender, .call nativeFnTransfer, .pop,
    .ret]

def split : Function where
  name := "split"
  isPublic := true
  params := [("from", coinType), ("amount", .u64)]
  returnType := none
  localCount := 2
  code := [.load 0, .load 1, .call nativeFnSender, .call "split_and_transfer", .pop, .ret]

def toBalance : Function where
  name := "to_balance"
  isPublic := true
  params := [("coin", coinType)]
  returnType := some (.struct meowCoinBalanceStructName)
  localCount := 3
  code := [
    .load 0, unpackCoin, .store 1, .store 2,
    .load 1, .call nativeFnDestroy, .pop,
    .load 2, .newStruct meowCoinBalanceStructName [amountFieldName], .ret]

def fromBalance : Function where
  name := "from_balance"
  isPublic := true
  params := [("balance", .struct meowCoinBalanceStructName)]
  returnType := some coinType
  localCount := 2
  code := [
    .load 0, .unpackStruct meowCoinBalanceStructName [amountFieldName], .store 1,
    .call nativeFnFreshId, .load 1, newCoin, .ret]

end MeowCoin

open MeowCoin in
def meowCoinModule : Module where
  name := "meow_coin"
  imports := [meowObjectModuleAddress]
  structs := [coinDef, coinBalanceDef]
  functions := [
    mint, balance, burn, transfer, mergeAndTransfer, merge, splitAndTransfer, split, toBalance,
    fromBalance]

/-- The dependencies of a module that only knows objects, such as `meow_coin`. -/
def objectDeps : DepMap :=
  (∅ : DepMap).insert meowObjectModuleAddress meowObjectModule

end MeowChain
