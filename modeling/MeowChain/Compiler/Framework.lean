import MeowChain.Adapter.Framework
import MeowChain.Compiler.Compile

/-!
# Compiling the framework

The syntax trees of `meow_object` and `meow_coin`, and that the compiler turns them into the modules
of the framework. The order of the import map does not matter: there is at most one import.
-/

set_option autoImplicit false

namespace MeowChain.Compiler

/-! ## Signatures for the compiler -/

/-- The name of the id type in source code. -/
def sourceIdType : Ty := .struct "meow_object::Id"

/-- `adapter_native_sigs_for_compiler`: ids go by the name they have in source code. -/
def adapterNativeSigsForCompiler : List NativeSig := [
  { freshIdSig with returnType := some sourceIdType },
  transferSig,
  { destroySig with params := [.concrete sourceIdType] },
  senderSig, randSig, timestampSig]

/-! ## Syntax trees -/

def meowObjectItems : List AstItem := [
  .moduleDecl "meow_object",
  .struct ⟨true, "Id", [("inner", .address)]⟩]

namespace CoinSource

def coinTy : Ty := .struct "MeowCoin"

def balanceTy : Ty := .struct "MeowCoinBalance"

def freshId : Expr := .call "meow_vm_fresh_id" []

def sender : Expr := .call "meow_vm_sender" []

def mint : AstFunction where
  isPublic := false
  name := "mint"
  params := [("balance", .u64), ("owner", .address)]
  returnType := none
  body := [
    .let_ "coin" (.structLit "MeowCoin" [("id", freshId), ("balance", .ident "balance")]),
    .expr (.call "meow_vm_transfer" [.ident "coin", .ident "owner"])]

def balance : AstFunction where
  isPublic := true
  name := "balance"
  params := [("coin", coinTy)]
  returnType := some (.tuple [coinTy, .u64])
  body := [
    .let_ "b" (.fieldAccess (.ident "coin") "balance"),
    .return_ (some (.tuple [.ident "coin", .ident "b"]))]

def burn : AstFunction where
  isPublic := true
  name := "burn"
  params := [("coin", coinTy)]
  returnType := none
  body := [
    .letStruct "MeowCoin" [("id", "id")] (.ident "coin") true,
    .expr (.call "meow_vm_destroy" [.ident "id"])]

def transfer : AstFunction where
  isPublic := true
  name := "transfer"
  params := [("coin", coinTy), ("to", .address)]
  returnType := none
  body := [.expr (.call "meow_vm_transfer" [.ident "coin", .ident "to"])]

def mergeAndTransfer : AstFunction where
  isPublic := true
  name := "merge_and_transfer"
  params := [("from", coinTy), ("to", coinTy), ("recipient", .address)]
  returnType := none
  body := [
    .fieldAssign "to" "balance" []
      (.binOp (.fieldAccess (.ident "to") "balance") .add (.fieldAccess (.ident "from") "balance")),
    .letStruct "MeowCoin" [("id", "id")] (.ident "from") true,
    .expr (.call "meow_vm_destroy" [.ident "id"]),
    .expr (.call "meow_vm_transfer" [.ident "to", .ident "recipient"])]

def merge : AstFunction where
  isPublic := true
  name := "merge"
  params := [("from", coinTy), ("to", coinTy)]
  returnType := none
  body := [.expr (.call "merge_and_transfer" [.ident "from", .ident "to", sender])]

def splitAndTransfer : AstFunction where
  isPublic := true
  name := "split_and_transfer"
  params := [("from", coinTy), ("amount", .u64), ("to", .address)]
  returnType := none
  body := [
    .expr (.call "meow_vm_abort"
      [.binOp (.fieldAccess (.ident "from") "balance") .ge (.ident "amount"), .int 1,
        .str "The balance is insufficient"]),
    .fieldAssign "from" "balance" []
      (.binOp (.fieldAccess (.ident "from") "balance") .sub (.ident "amount")),
    .let_ "coin" (.structLit "MeowCoin" [("id", freshId), ("balance", .ident "amount")]),
    .expr (.call "meow_vm_transfer" [.ident "coin", .ident "to"]),
    .expr (.call "meow_vm_transfer" [.ident "from", sender])]

def split : AstFunction where
  isPublic := true
  name := "split"
  params := [("from", coinTy), ("amount", .u64)]
  returnType := none
  body := [.expr (.call "split_and_transfer" [.ident "from", .ident "amount", sender])]

def toBalance : AstFunction where
  isPublic := true
  name := "to_balance"
  params := [("coin", coinTy)]
  returnType := some balanceTy
  body := [
    .letStruct "MeowCoin" [("id", "id"), ("balance", "balance")] (.ident "coin") false,
    .expr (.call "meow_vm_destroy" [.ident "id"]),
    .return_ (some (.structLit "MeowCoinBalance" [("amount", .ident "balance")]))]

def fromBalance : AstFunction where
  isPublic := true
  name := "from_balance"
  params := [("balance", balanceTy)]
  returnType := some coinTy
  body := [
    .letStruct "MeowCoinBalance" [("amount", "amount")] (.ident "balance") false,
    .return_ (some (.structLit "MeowCoin" [("id", freshId), ("balance", .ident "amount")]))]

end CoinSource

open CoinSource in
def meowCoinItems : List AstItem := [
  .moduleDecl "meow_coin",
  .use "meow_object" meowObjectModuleAddress none,
  .struct ⟨true, "MeowCoin", [("id", sourceIdType), ("balance", .u64)]⟩,
  .struct ⟨true, "MeowCoinBalance", [("amount", .u64)]⟩,
  .fn mint, .fn balance, .fn burn, .fn transfer, .fn mergeAndTransfer, .fn merge,
  .fn splitAndTransfer, .fn split, .fn toBalance, .fn fromBalance]

/-! ## Compilation -/

section Compilation

variable (order : MapOrder) {parse : ItemParser} {source : String}

theorem compileItems_congr {order order' : MapOrder} {uses : List UseDecl}
    (h : depAddressesOf order uses = depAddressesOf order' uses) (deps : List (Address × Module))
    (natives : List NativeSig) (config : CompilerConfig) (items : List AstItem) (name : String) :
    compileItems order deps natives config items name uses =
      compileItems order' deps natives config items name uses := by
  simp only [compileItems, validateModule, checkInput, codegenEnv, h]

theorem compile_of_items {items : List AstItem} {name : String} {uses : List UseDecl}
    (hparse : parse (stripLineComments false source.toList) = some items)
    (hextract : extract items = .ok (items, name, uses))
    (deps : List (Address × Module)) (natives : List NativeSig) (config : CompilerConfig) :
    compile order deps natives config parse source =
      compileItems order deps natives config items name uses := by
  unfold compile parseAndExtract
  rw [hparse]
  dsimp only
  rw [hextract]
  rfl

theorem compile_meowObject
    (h : parse (stripLineComments false source.toList) = some meowObjectItems) :
    compile order [] adapterNativeSigsForCompiler compilerConfig parse source =
      .ok meowObjectModule := by
  have hentries : depAddressesOf order (useDecls meowObjectItems) =
      depAddressesOf declarationOrder (useDecls meowObjectItems) :=
    List.perm_nil.mp (order.perm [])
  rw [compile_of_items order h rfl, compileItems_congr hentries]
  rfl

theorem compile_meowCoin
    (h : parse (stripLineComments false source.toList) = some meowCoinItems) :
    compile order [(meowObjectModuleAddress, meowObjectModule)] adapterNativeSigsForCompiler
      compilerConfig parse source = .ok meowCoinModule := by
  have hentries : depAddressesOf order (useDecls meowCoinItems) =
      depAddressesOf declarationOrder (useDecls meowCoinItems) :=
    List.perm_singleton.mp (order.perm [("meow_object", meowObjectModuleAddress)])
  rw [compile_of_items order h rfl, compileItems_congr hentries]
  rfl

end Compilation

end MeowChain.Compiler
