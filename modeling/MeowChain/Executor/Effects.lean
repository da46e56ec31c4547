import MeowChain.Executor.Arguments

/-!
# Effects of a transaction

Where the objects of an execution result come from, whatever code was run: created objects have
addresses derived from the digest of the transaction, changed and destroyed objects are inputs that
the sender owns and the transaction refers to.
-/

set_option autoImplicit false

namespace MeowChain

variable {B : Type} {P : Platform B}

/-! ## Fresh ids -/

structure Context.Derived (crypto : NativeCrypto) (txDigest : Digest) (ctx : Context) : Prop where
  txDigest_eq : ctx.txDigest = txDigest
  freshIds : ∀ id ∈ ctx.freshIds, ∃ n, id = crypto.derive txDigest 0 n

theorem Context.derived_new (crypto : NativeCrypto) (sender : Address) (txDigest randSeed : Digest)
    (timestamp : UInt64) :
    (Context.new crypto sender txDigest randSeed timestamp).Derived crypto txDigest :=
  ⟨rfl, by simp [Context.new]⟩

theorem Context.Derived.nextFreshId {crypto : NativeCrypto} {txDigest : Digest} {ctx : Context}
    (h : ctx.Derived crypto txDigest) : (ctx.nextFreshId crypto).2.Derived crypto txDigest where
  txDigest_eq := h.txDigest_eq
  freshIds id hid := by
    rcases List.mem_append.mp hid with hold | hnew
    · exact h.freshIds id hold
    · exact ⟨ctx.idCounter, by rw [List.mem_singleton.mp hnew, h.txDigest_eq]⟩

theorem chainNatives_derived {crypto : NativeCrypto} {txDigest : Digest} :
    ∀ entry ∈ chainNatives crypto, ∀ (ctx : Context) (args : List (Value Unit)),
      ctx.Derived crypto txDigest → (entry.func ctx args).2.Derived crypto txDigest := by
  intro entry hentry ctx args h
  have hsame : ∀ ctx' : Context, ctx'.txDigest = ctx.txDigest → ctx'.freshIds = ctx.freshIds →
      ctx'.Derived crypto txDigest :=
    fun ctx' hdigest hids => ⟨hdigest.trans h.txDigest_eq, hids ▸ h.freshIds⟩
  simp only [chainNatives, buildNatives, List.mem_cons, List.not_mem_nil, or_false] at hentry
  rcases hentry with rfl | rfl | rfl | rfl | rfl | rfl | rfl
  · unfold meowVmAbortEntry
    dsimp only
    split <;> exact h
  · exact h.nextFreshId
  · unfold transferEntry
    dsimp only
    split
    · split
      · exact h
      · exact hsame _ rfl rfl
    · exact h
    · exact h
  · unfold destroyEntry
    dsimp only
    split
    · split
      · exact hsame _ rfl rfl
      · exact h
    · exact h
  · exact h
  · exact hsame _ rfl rfl
  · exact h

/-! ## Inputs -/

/-- An input that a transaction of `sender` may spend through one of `refs`. -/
def Spendable (P : Platform B) (sender : Address) (refs : List ObjectRef)
    (inputs : List (Object B)) (obj : Object B) : Prop :=
  ∃ ref ∈ refs, findInput inputs ref.address = some obj ∧ AcceptedObject P ref sender obj

theorem Spendable.mono {sender : Address} {refs refs' : List ObjectRef} {inputs : List (Object B)}
    {obj : Object B} (h : Spendable P sender refs inputs obj) (hsub : ∀ ref ∈ refs, ref ∈ refs') :
    Spendable P sender refs' inputs obj := by
  obtain ⟨ref, href, hobj⟩ := h
  exact ⟨ref, hsub ref href, hobj⟩

theorem resolveArgsFrom_mem {sender : Address} {inputs : List (Object B)} {i : ℕ}
    {arguments : List (Input B)} {params : List (String × Ty)} {args : List (Value Unit)}
    (hlen : arguments.length = params.length)
    (h : resolveArgsFrom P sender inputs i arguments params = .ok args) {input : Input B}
    (hinput : input ∈ arguments) :
    ∃ ty v, resolveArg P input ty sender inputs = .ok v := by
  induction arguments generalizing i params args with
  | nil => cases hinput
  | cons first arguments ih =>
    cases params with
    | nil => cases hlen
    | cons param params =>
      rw [resolveArgsFrom] at h
      split at h
      · cases h
      · rename_i v hv
        rcases List.mem_cons.mp hinput with rfl | hinput
        · exact ⟨param.2, v, hv⟩
        · cases hrest : resolveArgsFrom P sender inputs (i + 1) arguments params with
          | error e =>
            rw [hrest] at h
            cases h
          | ok vs => exact ih (Nat.succ.inj hlen) hrest hinput

theorem PreparedCall.From.spendable {sender : Address} {call : Call B} {inputs : List (Object B)}
    {prepared : PreparedCall B} (h : prepared.From P sender call inputs) {obj : Object B}
    (hobj : obj ∈ prepared.objectArgs) :
    ∃ ref, .object ref ∈ call.arguments ∧ findInput inputs ref.address = some obj ∧
      AcceptedObject P ref sender obj := by
  obtain ⟨hlen, hargs, hobjects⟩ := resolveArgs_eq_ok h.args
  rw [hobjects] at hobj
  obtain ⟨input, hinput, hfound⟩ := List.mem_filterMap.mp hobj
  obtain ⟨ty, v, hv⟩ := resolveArgsFrom_mem hlen hargs hinput
  cases input with
  | raw bytes => cases hfound
  | object ref =>
    obtain ⟨obj', hfound', haccepted, -⟩ := resolveObject_eq_ok hv
    obtain rfl := Option.some.inj (hfound.symm.trans hfound')
    exact ⟨ref, hinput, hfound, haccepted⟩

/-! ## Effects of a call -/

structure Succeeds (old obj : Object B) : Prop where
  address : obj.address = old.address
  version : old.version.next = some obj.version

/-- What a result can hold: objects at addresses derived from the digest of the transaction, new
versions of inputs spent through `refs`, and destroyed object arguments. -/
structure ExecutionResult.Effects (P : Platform B) (tx : Transaction B) (refs : List ObjectRef)
    (inputs : List (Object B)) (result : ExecutionResult B) : Prop where
  created : ∀ obj ∈ result.createdObjects,
    obj.version = .one ∧ obj.transaction = P.transactionDigest tx ∧
      ∃ n, obj.address = P.derive (P.transactionDigest tx) 0 n
  changed : ∀ obj ∈ result.changedObjects,
    ∃ old, Spendable P tx.sender refs inputs old ∧ Succeeds old obj
  destroyed : ∀ obj ∈ result.destroyedObjects,
    ∃ old, Spendable P tx.sender tx.argumentRefs inputs old ∧ Succeeds old obj

theorem bumpVersion_eq_ok {ε : Type} {obj : Object B} {version : ObjectVersion} :
    bumpVersion (ε := ε) obj = .ok version ↔ obj.version.next = some version :=
  Outcome.expect_eq_ok

theorem inputByAddr_eq_some {objectArgs : List (Object B)} {id : Address} {obj : Object B}
    (h : inputByAddr objectArgs id = some obj) : obj ∈ objectArgs ∧ obj.address = id :=
  ⟨List.mem_reverse.mp (List.mem_of_find?_eq_some h),
    by simpa using List.find?_some h⟩

theorem Identifier.new_eq_some {s : String} {name : Identifier} :
    Identifier.new s = some name ↔ s = name.name := by
  unfold Identifier.new
  constructor
  · intro h
    split at h
    · obtain rfl := Option.some.inj h
      rfl
    · cases h
  · rintro rfl
    rw [dif_pos name.valid]

/-- An object is made of a struct with a qualified name and an address, if BCS can write its other
fields. -/
theorem vmObjectValueToObject_eq_ok_iff {val : Value Unit} {owner : ObjectOwner} {txDigest : Digest}
    {version : ObjectVersion} {obj : Object B} :
    vmObjectValueToObject P val owner txDigest version = .ok obj ↔
      ∃ typeName fields decl address content, val = .struct () typeName fields ∧
        parseModuleRef typeName = some (decl.module, decl.name.name) ∧
        objectAddress P.bcs val = some address ∧
        P.encodeFields (contentFields fields) = some content ∧
        obj = ⟨address, owner, txDigest, version, .object decl, content⟩ := by
  constructor
  · intro h
    unfold vmObjectValueToObject at h
    split at h
    · split at h
      · cases h
      · rename_i hparse
        split at h
        · cases h
        · rename_i name hname
          split at h
          · cases h
          · rename_i address haddress
            split at h
            · cases h
            · rename_i content hcontent
              obtain rfl := Identifier.new_eq_some.mp hname
              exact ⟨_, _, ⟨_, name⟩, address, content, rfl, hparse, haddress, hcontent,
                (Outcome.ok.inj h).symm⟩
    · cases h
  · rintro ⟨typeName, fields, decl, address, content, rfl, hparse, haddress, hcontent, rfl⟩
    have hname : Identifier.new decl.name.name = some decl.name := Identifier.new_eq_some.mpr rfl
    simp only [vmObjectValueToObject, hparse, hname, haddress, hcontent]

theorem vmObjectValueToObject_eq_ok {val : Value Unit} {owner : ObjectOwner} {txDigest : Digest}
    {version : ObjectVersion} {obj : Object B}
    (h : vmObjectValueToObject P val owner txDigest version = .ok obj) :
    objectAddress P.bcs val = some obj.address ∧ obj.version = version ∧
      obj.transaction = txDigest := by
  obtain ⟨_, _, _, address, _, -, -, haddress, -, rfl⟩ := vmObjectValueToObject_eq_ok_iff.mp h
  exact ⟨haddress, rfl, rfl⟩

/-- A transferred object is new, under a fresh id, or succeeds an object argument. -/
theorem transferredObject_eq_ok {ctx : Context} {objectArgs : List (Object B)} {txDigest : Digest}
    {transfer : Value Unit × Address} {isFresh : Bool} {obj : Object B}
    (h : transferredObject P ctx objectArgs txDigest transfer = .ok (isFresh, obj)) :
    isFresh = true ∧ obj.address ∈ ctx.freshIds ∧ obj.version = .one ∧
        obj.transaction = txDigest ∨
      isFresh = false ∧ ∃ old ∈ objectArgs, Succeeds old obj := by
  obtain ⟨id, hid, h⟩ := Outcome.bind_eq_ok.mp h
  rw [Outcome.expect_eq_ok] at hid
  obtain ⟨version, hversion, h⟩ := Outcome.bind_eq_ok.mp h
  split at h
  case h_1 converted hconvert =>
    obtain ⟨hfresh, rfl⟩ := Prod.mk.inj (Outcome.ok.inj h)
    obtain ⟨haddress, hversion', hdigest⟩ := vmObjectValueToObject_eq_ok hconvert
    obtain rfl := Option.some.inj (hid.symm.trans haddress)
    by_cases hmem : ctx.freshIds.contains converted.address = true
    · rw [if_pos hmem] at hversion
      cases hversion
      exact .inl ⟨hfresh ▸ hmem, List.contains_iff_mem.mp hmem, hversion', hdigest⟩
    · rw [if_neg hmem] at hversion
      obtain ⟨old, hold, hbump⟩ := Outcome.bind_eq_ok.mp hversion
      rw [Outcome.expect_eq_ok] at hold
      obtain ⟨hargs, haddress⟩ := inputByAddr_eq_some hold
      refine .inr ⟨by rw [← hfresh]; simpa using hmem, old, hargs, haddress.symm, ?_⟩
      rw [hversion']
      exact bumpVersion_eq_ok.mp hbump
  case h_2 => cases h
  case h_3 => cases h
  case h_4 => cases h

theorem destroyedObject_eq_ok {objectArgs : List (Object B)} {txDigest : Digest} {id : Address}
    {obj : Object B} (h : destroyedObject objectArgs txDigest id = .ok obj) :
    ∃ old ∈ objectArgs, Succeeds old obj := by
  obtain ⟨old, hold, h⟩ := Outcome.bind_eq_ok.mp h
  rw [Outcome.expect_eq_ok] at hold
  obtain ⟨version, hversion, h⟩ := Outcome.bind_eq_ok.mp h
  cases h
  exact ⟨old, (inputByAddr_eq_some hold).1, rfl, bumpVersion_eq_ok.mp hversion⟩

theorem collectObjectEffects_eq_ok {ctx : Context} {objectArgs : List (Object B)}
    {txDigest : Digest} {effects : ObjectEffects B}
    (h : collectObjectEffects P ctx objectArgs txDigest = .ok effects) :
    (∀ obj ∈ effects.created, obj.address ∈ ctx.freshIds ∧ obj.version = .one ∧
      obj.transaction = txDigest) ∧
    (∀ obj ∈ effects.changed, ∃ old ∈ objectArgs, Succeeds old obj) ∧
    (∀ obj ∈ effects.destroyed, ∃ old ∈ objectArgs, Succeeds old obj) := by
  obtain ⟨_, -, h⟩ := Outcome.bind_eq_ok.mp h
  split at h
  · cases h
  · obtain ⟨transferred, htransferred, h⟩ := Outcome.bind_eq_ok.mp h
    obtain ⟨destroyed, hdestroyed, h⟩ := Outcome.bind_eq_ok.mp h
    cases h
    refine ⟨?_, ?_, ?_⟩
    · intro obj hobj
      obtain ⟨⟨isFresh, obj⟩, hmem, rfl⟩ := List.mem_map.mp hobj
      obtain ⟨hmem, hfresh⟩ := List.mem_filter.mp hmem
      obtain ⟨transfer, -, htransfer⟩ := Outcome.mem_forEach htransferred hmem
      obtain ⟨-, hnew⟩ | ⟨hnot, -⟩ := transferredObject_eq_ok htransfer
      · exact hnew
      · simp [hnot] at hfresh
    · intro obj hobj
      obtain ⟨⟨isFresh, obj⟩, hmem, rfl⟩ := List.mem_map.mp hobj
      obtain ⟨hmem, hnot⟩ := List.mem_filter.mp hmem
      obtain ⟨transfer, -, htransfer⟩ := Outcome.mem_forEach htransferred hmem
      obtain ⟨hfresh, -⟩ | ⟨-, hold⟩ := transferredObject_eq_ok htransfer
      · simp [hfresh] at hnot
      · exact hold
    · intro obj hobj
      obtain ⟨id, -, hid⟩ := Outcome.mem_forEach hdestroyed hobj
      exact destroyedObject_eq_ok hid

theorem ExecutionResult.Effects.failure (tx : Transaction B) (refs : List ObjectRef)
    (inputs : List (Object B)) (message : String) (txDigest : Digest) :
    (ExecutionResult.failure message txDigest).Effects P tx refs inputs where
  created := by simp [ExecutionResult.failure]
  changed := by simp [ExecutionResult.failure]
  destroyed := by simp [ExecutionResult.failure]

/-! ## What a transaction does -/

/-- What the natives find when the call of a transaction starts. -/
def callContext (P : Platform B) (tx : Transaction B) (ext : ExternalContext) : Context :=
  Context.new P.toNativeCrypto tx.sender (P.transactionDigest tx) ext.randSeed ext.timestamp

/-- How the machine ends that is called with a prepared call. -/
def PreparedCall.final (P : Platform B) (tx : Transaction B) (ext : ExternalContext)
    (config : VmConfig) (gas : GasMeter) (call : Call B) (prepared : PreparedCall B) :
    Final Unit Context :=
  (callVm P call.module prepared config).call (fun _ => ()) call.function.name prepared.args gas
    (callContext P tx ext)

inductive Does (P : Platform B) (tx : Transaction B) (inputs : List (Object B))
    (ext : ExternalContext) (config : VmConfig) (gas : GasMeter) : ExecutionResult B → Prop
  | failed (message : String) :
      Does P tx inputs ext config gas (.failure message (P.transactionDigest tx))
  | published {bytes : B} {module : Module} (htype : tx.type = .meowModulePublish bytes)
      (hverified : verifyModule P bytes inputs = .ok module) :
      Does P tx inputs ext config gas {
        status := .success
        transactionDigest := P.transactionDigest tx
        createdObjects := [Object.freshModule (P.derive (P.transactionDigest tx) 0 0)
          (P.transactionDigest tx) bytes]
        changedObjects := []
        destroyedObjects := [] }
  | called {call : Call B} {prepared : PreparedCall B} {v : Option (Value Unit)}
      {effects : ObjectEffects B} (htype : tx.type = .meowCall call)
      (hprepared : prepareCall P tx.sender call inputs = .ok prepared)
      (hok : (prepared.final P tx ext config gas call).outcome = .ok v)
      (heffects : collectObjectEffects P (prepared.final P tx ext config gas call).ctx
        prepared.objectArgs (P.transactionDigest tx) = .ok effects) :
      Does P tx inputs ext config gas {
        status := .success
        transactionDigest := P.transactionDigest tx
        createdObjects := effects.created
        changedObjects := effects.changed
        destroyedObjects := effects.destroyed }

section Does

variable {tx : Transaction B} {inputs : List (Object B)} {ext : ExternalContext}
variable {config : VmConfig} {gas : GasMeter} {result : ExecutionResult B}

theorem does_of_callResult {call : Call B} {prepared : PreparedCall B}
    (htype : tx.type = .meowCall call) (hprepared : prepareCall P tx.sender call inputs = .ok prepared)
    (h : callResult P prepared (P.transactionDigest tx) (prepared.final P tx ext config gas call)
      = .ok result) : Does P tx inputs ext config gas result := by
  unfold callResult at h
  split at h
  · rename_i v hok
    split at h
    · rename_i effects heffects
      obtain rfl := Outcome.ok.inj h
      exact .called htype hprepared hok heffects
    · obtain rfl := Outcome.ok.inj h
      exact .failed _
    · cases h
    · cases h
  · obtain rfl := Outcome.ok.inj h
    exact .failed _
  · obtain rfl := Outcome.ok.inj h
    exact .failed _
  · cases h
  · cases h

theorem does_of_publish {bytes : B} (htype : tx.type = .meowModulePublish bytes) :
    Does P tx inputs ext config gas
      (executeMeowModulePublish P (P.transactionDigest tx) bytes inputs gas).1 := by
  unfold executeMeowModulePublish
  split
  · exact .failed _
  · rename_i module hverified
    split
    · exact .failed _
    · exact .published htype hverified

theorem does_of_executeType (h : (executeType P tx inputs gas config ext).1 = .ok result) :
    Does P tx inputs ext config gas result := by
  unfold executeType at h
  split at h
  · rename_i call htype
    unfold executeMeowCall at h
    split at h
    · obtain rfl := Outcome.ok.inj h
      exact .failed _
    · rename_i prepared hprepared
      exact does_of_callResult htype hprepared h
  · rename_i bytes htype
    obtain rfl := Outcome.ok.inj h
    exact does_of_publish htype

theorem Does.effects (h : Does P tx inputs ext config gas result) :
    result.Effects P tx tx.argumentRefs inputs := by
  cases h with
  | failed message => exact .failure _ _ _ _ _
  | published htype hverified =>
    refine ⟨?_, by simp, by simp⟩
    intro obj hobj
    obtain rfl := List.mem_singleton.mp hobj
    exact ⟨rfl, rfl, 0, rfl⟩
  | @called call prepared v effects htype hprepared hok heffects =>
    have hfrom := prepareCall_eq_ok hprepared
    have hspendable : ∀ obj ∈ prepared.objectArgs,
        Spendable P tx.sender tx.argumentRefs inputs obj := by
      intro obj hobj
      obtain ⟨ref, href, hfound⟩ := hfrom.spendable hobj
      exact ⟨ref, Transaction.mem_argumentRefs.mpr (by rwa [htype]), hfound⟩
    have hderived : (prepared.final P tx ext config gas call).ctx.Derived P.toNativeCrypto
        (P.transactionDigest tx) :=
      Vm.call_ctx chainNatives_derived
        (Context.derived_new P.toNativeCrypto tx.sender (P.transactionDigest tx) ext.randSeed
          ext.timestamp)
    obtain ⟨hcreated, hchanged, hdestroyed⟩ := collectObjectEffects_eq_ok heffects
    exact {
      created := fun obj hobj => by
        obtain ⟨hid, hversion, hdigest⟩ := hcreated obj hobj
        exact ⟨hversion, hdigest, hderived.freshIds _ hid⟩
      changed := fun obj hobj => by
        obtain ⟨old, hold, hsucceeds⟩ := hchanged obj hobj
        exact ⟨old, hspendable old hold, hsucceeds⟩
      destroyed := fun obj hobj => by
        obtain ⟨old, hold, hsucceeds⟩ := hdestroyed obj hobj
        exact ⟨old, hspendable old hold, hsucceeds⟩ }

theorem executeType_effects (h : (executeType P tx inputs gas config ext).1 = .ok result) :
    result.Effects P tx tx.argumentRefs inputs :=
  (does_of_executeType h).effects

theorem executeType_within {limit : ℕ} (h : gas.Within limit) :
    (executeType P tx inputs gas config ext).2.Within limit := by
  unfold executeType
  split
  · unfold executeMeowCall
    split
    · exact h
    · exact Vm.call_within h
  · rename_i bytes htype
    have hpaid := h.charge (P.length bytes * gasPerModuleByte)
    unfold executeMeowModulePublish
    dsimp only
    split
    · exact h
    · split
      · rename_i hcharge
        rw [hcharge] at hpaid
        exact hpaid
      · rename_i hcharge
        rw [hcharge] at hpaid
        exact hpaid

end Does

/-! ## Paying for it -/

theorem resolveGasCoinObject_eq_ok {gasCoinRef : ObjectRef} {sender : Address}
    {inputs : List (Object B)} {coin : Object B}
    (h : resolveGasCoinObject P gasCoinRef sender inputs = .ok coin) :
    findInput inputs gasCoinRef.address = some coin ∧ AcceptedObject P gasCoinRef sender coin := by
  unfold resolveGasCoinObject at h
  split at h
  · cases h
  · rename_i found hfound
    split_ifs at h with hcoin howner hmax hversion hdigest
    cases h
    refine ⟨hfound, ?_, not_not.mp howner, hmax, not_not.mp hversion, not_not.mp hdigest⟩
    intro hmodule
    simp [isMeowCoinObject, hmodule] at hcoin

/-- An executed transaction: its effects, and the gas coin that paid for it. -/
structure ExecutionResult.Paid (P : Platform B) (tx : Transaction B) (inputs : List (Object B))
    (result : ExecutionResult B) : Prop where
  effects : result.Effects P tx tx.objectRefs inputs
  gasCoin : ∃ coin, findInput inputs tx.gasCoin.address = some coin ∧
    AcceptedObject P tx.gasCoin tx.sender coin ∧ ∃ obj ∈ result.changedObjects, Succeeds coin obj

structure PaysGas (P : Platform B) (tx : Transaction B) (inputs : List (Object B)) (gasUsed : ℕ)
    (old coin : Object B) : Prop where
  resolved : resolveGasCoinObject P tx.gasCoin tx.sender inputs = .ok old
  budget : ∃ budget, balanceFromObject P old = some budget ∧ gasUsed ≤ budget.toNat
  content : deductGas P old gasUsed = some coin.content
  version : old.version.next = some coin.version
  coin : coin = { old with
    transaction := P.transactionDigest tx, version := coin.version, content := coin.content }

/-- The gas that is left when the base cost is charged. -/
def GasLeft (P : Platform B) (tx : Transaction B) (inputs : List (Object B)) (gas : GasMeter) :
    Prop :=
  ∃ coin budget, resolveGasCoinObject P tx.gasCoin tx.sender inputs = .ok coin ∧
    balanceFromObject P coin = some budget ∧
    gas = ((GasMeter.new budget.toNat).charge baseTransactionGasCost).1

section Execute

variable {tx : Transaction B} {inputs : List (Object B)} {ext : ExternalContext}
variable {result : ExecutionResult B}

/-- A result is what the transaction did, together with the gas coin. -/
theorem execute_eq_ok (h : execute P tx inputs ext = .ok result) :
    ∃ executed gas old coin, PaysGas P tx inputs result.gasUsed old coin ∧
      GasLeft P tx inputs gas ∧ Does P tx inputs ext vmConfig gas executed ∧
      result = { executed with
        changedObjects := executed.changedObjects ++ [coin], gasUsed := result.gasUsed } := by
  unfold execute at h
  obtain ⟨old, hcoin, h⟩ := Outcome.bind_eq_ok.mp h
  obtain ⟨budget, hbudget, h⟩ := Outcome.bind_eq_ok.mp h
  rw [Outcome.expect_eq_ok] at hbudget
  obtain ⟨executed, hexecuted, h⟩ := Outcome.bind_eq_ok.mp h
  obtain ⟨content, hcontent, h⟩ := Outcome.bind_eq_ok.mp h
  rw [Outcome.expect_eq_ok] at hcontent
  obtain ⟨version, hversion, h⟩ := Outcome.bind_eq_ok.mp h
  obtain rfl := Outcome.ok.inj h
  have hnew : (GasMeter.new budget.toNat).Within budget.toNat := ⟨rfl, Nat.zero_le _⟩
  have hwithin := hnew.charge baseTransactionGasCost
  have hpays : ∀ {gasUsed : ℕ}, gasUsed ≤ budget.toNat → deductGas P old gasUsed = some content →
      PaysGas P tx inputs gasUsed old
        { old with transaction := P.transactionDigest tx, version, content } :=
    fun hle hdeduct => ⟨hcoin, ⟨budget, hbudget, hle⟩, hdeduct, bumpVersion_eq_ok.mp hversion, rfl⟩
  have hleft : GasLeft P tx inputs ((GasMeter.new budget.toNat).charge baseTransactionGasCost).1 :=
    ⟨old, budget, hcoin, hbudget, rfl⟩
  dsimp only at hexecuted hcontent ⊢
  cases hcharge : (GasMeter.new budget.toNat).charge baseTransactionGasCost with
  | mk gas e =>
    rw [hcharge] at hwithin hleft
    simp only [hcharge] at hexecuted hcontent ⊢
    cases e with
    | some e =>
      obtain rfl := Outcome.ok.inj hexecuted
      exact ⟨_, gas, old, _, hpays hwithin.2 hcontent, hleft, .failed _, rfl⟩
    | none =>
      exact ⟨executed, gas, old, _, hpays (executeType_within hwithin).2 hcontent, hleft,
        does_of_executeType hexecuted, rfl⟩

theorem execute_paid (h : execute P tx inputs ext = .ok result) : result.Paid P tx inputs := by
  obtain ⟨executed, gas, old, coin, hpays, -, hdoes, hresult⟩ := execute_eq_ok h
  obtain ⟨hfound, haccepted⟩ := resolveGasCoinObject_eq_ok hpays.resolved
  have hsucceeds : Succeeds old coin :=
    ⟨by rw [hpays.coin], hpays.version⟩
  have heffects := hdoes.effects
  rw [hresult]
  refine ⟨⟨heffects.created, ?_, heffects.destroyed⟩, old, hfound, haccepted, _,
    List.mem_append_right _ (List.mem_singleton.mpr rfl), hsucceeds⟩
  intro obj hobj
  rcases List.mem_append.mp hobj with hown | hpaid
  · obtain ⟨old, hold, hsucceeds⟩ := heffects.changed obj hown
    exact ⟨old, hold.mono fun ref => List.mem_cons_of_mem _, hsucceeds⟩
  · obtain rfl := List.mem_singleton.mp hpaid
    exact ⟨old, ⟨tx.gasCoin, List.mem_cons_self, hfound, haccepted⟩, hsucceeds⟩

end Execute

end MeowChain
