import MeowChain.Chain.Ledger

/-!
# Object effects

What a transaction leaves in its result. A failed transaction only pays for its gas, and every
transaction pays exactly the gas it used.
-/

set_option autoImplicit false

namespace MeowChain

variable {B : Type} {P : Platform B} {tx : Transaction B} {inputs : List (Object B)}
variable {ext : ExternalContext} {result : ExecutionResult B} {old coin : Object B}

/-! ## Failure -/

theorem Does.eq_failure {config : VmConfig} {gas : GasMeter} {message : String}
    (h : Does P tx inputs ext config gas result) (hfailed : result.status = .failure message) :
    result = .failure message (P.transactionDigest tx) := by
  cases h with
  | failed other =>
    obtain rfl := ExecutionStatus.failure.inj hfailed
    rfl
  | published htype hverified => cases hfailed
  | called htype hprepared hok heffects => cases hfailed

/-- Whatever the call has logged before it failed, the result holds the gas coin only. -/
theorem failed_result_only_pays {message : String} (h : execute P tx inputs ext = .ok result)
    (hfailed : result.status = .failure message) :
    result.createdObjects = [] ∧ result.destroyedObjects = [] ∧
      ∃ old coin, PaysGas P tx inputs result.gasUsed old coin ∧ result.changedObjects = [coin] := by
  obtain ⟨executed, gas, old, coin, hpays, -, hdoes, hresult⟩ := execute_eq_ok h
  have hstatus : executed.status = .failure message := by rw [← hfailed, hresult]
  obtain rfl := hdoes.eq_failure hstatus
  rw [hresult]
  exact ⟨rfl, rfl, old, coin, hresult ▸ hpays, rfl⟩

/-! ## A vault -/

namespace Sample

/-- Addresses derived here are in the upper half, with the number in the last bits. -/
def upperPlatform : Platform Blob :=
  { platform with
    derive := fun d _ n =>
      BitVec.ofNat 256 (2 ^ 255 + d.toNat % 2 ^ 128 * 2 ^ 64 + n % 2 ^ 64) }

/-- `lose` transfers the vault and aborts. -/
def loseModule : Module :=
  { vaultModule with
    functions := [{
      name := "lose"
      isPublic := true
      params := [("vault", .struct "Vault")]
      returnType := none
      localCount := 1
      code := [
        .load 0, .call nativeFnSender, .call nativeFnTransfer, .pop,
        .pushBool false, .pushU64 1, .pushStr "lost", .call meowVmAbort, .pop, .ret] }] }

def inputsWith (module : Module) : List (Object Blob) := [
  .freshModule meowObjectModuleAddress 0 (.module meowObjectModule),
  .freshModule vaultAddr 0 (.module module),
  vaultObject,
  coinObject]

def paidCall (function : Identifier) (arguments : List (Input Blob)) : Transaction Blob where
  sender := owner
  gasCoin := objectRef coinObject
  type := .meowCall { module := vaultAddr, function, arguments }

def loseTx : Transaction Blob :=
  paidCall ⟨"lose", by decide⟩ [.object (objectRef vaultObject)]

def raiseTx : Transaction Blob :=
  paidCall (raiseCall vaultObject).function (raiseCall vaultObject).arguments

end Sample

open Sample in
theorem failed_result_only_pays_lost :
    ∃ result, execute upperPlatform loseTx (inputsWith loseModule) .empty = .ok result ∧
      result.status = .failure "lost" ∧ result.createdObjects = [] ∧
      result.destroyedObjects = [] ∧ ∃ old coin,
        PaysGas upperPlatform loseTx (inputsWith loseModule) result.gasUsed old coin ∧
        result.changedObjects = [coin] := by
  obtain ⟨result, h, hfailed⟩ := Outcome.exists_of_isOkAnd
    (x := execute upperPlatform loseTx (inputsWith loseModule) .empty)
    (p := fun result : ExecutionResult Blob => decide (result.status = .failure "lost"))
    (by decide +kernel)
  have hlost := of_decide_eq_true hfailed
  exact ⟨result, h, hlost, failed_result_only_pays h hlost⟩

/-! ## Gas -/

theorem lookup_deductBalance {spent : ℕ} {fields fields' : List (String × Value Unit)}
    {balance : UInt64} (h : deductBalance spent fields = some fields')
    (hbalance : (Value.lookup balanceFieldName fields).bind Value.asU64 = some balance) :
    (Value.lookup balanceFieldName fields').bind Value.asU64
      = some (UInt64.ofNat (balance.toNat - spent)) := by
  induction fields generalizing fields' with
  | nil => cases hbalance
  | cons entry fields ih =>
    obtain ⟨name, val⟩ := entry
    rw [deductBalance] at h
    by_cases hname : name = balanceFieldName
    · subst hname
      rw [if_pos rfl] at h
      have hval : val.asU64 = some balance := by
        simpa [Value.lookup] using hbalance
      rw [hval] at h
      obtain rfl := Option.some.inj h
      simp [Value.lookup, Value.asU64]
    · rw [if_neg hname] at h
      obtain ⟨rest, hrest, hcons⟩ := Option.map_eq_some_iff.mp h
      subst hcons
      have hskip : ∀ fields : List (String × Value Unit),
          Value.lookup balanceFieldName ((name, val) :: fields)
            = Value.lookup balanceFieldName fields := by
        intro fields
        simp [Value.lookup, hname]
      rw [hskip] at hbalance ⊢
      exact ih hrest hbalance

theorem PaysGas.balance {gasUsed : ℕ}
    (hbcs : ∀ fields content, P.encodeFields fields = some content →
      P.decodeFields content = .ok fields)
    (h : PaysGas P tx inputs gasUsed old coin) :
    ∃ balance balance', balanceFromObject P old = some balance ∧
      balanceFromObject P coin = some balance' ∧ balance'.toNat + gasUsed = balance.toNat := by
  obtain ⟨balance, hbalance, hle⟩ := h.budget
  refine ⟨balance, UInt64.ofNat (balance.toNat - gasUsed), hbalance, ?_, ?_⟩
  · have hcontent := h.content
    unfold deductGas at hcontent
    unfold balanceFromObject at hbalance ⊢
    have htype : isMeowCoinObject coin = isMeowCoinObject old := by
      rw [h.coin]
      rfl
    by_cases hcoin : isMeowCoinObject old = true
    · rw [if_pos hcoin] at hbalance hcontent
      rw [if_pos (htype.trans hcoin)]
      cases hdecode : P.decodeFields old.content with
      | error e =>
        rw [hdecode] at hcontent
        cases hcontent
      | ok fields =>
        rw [hdecode] at hbalance hcontent
        obtain ⟨fields', hdeduct, hencode⟩ := Option.bind_eq_some_iff.mp hcontent
        rw [hbcs fields' _ hencode]
        exact lookup_deductBalance hdeduct hbalance
    · rw [if_neg hcoin] at hbalance
      cases hbalance
  · have hlt : balance.toNat - gasUsed < UInt64.size :=
      lt_of_le_of_lt (Nat.sub_le _ _) balance.toNat_lt_size
    rw [UInt64.toNat_ofNat_of_lt' hlt]
    omega

theorem ExecutionResult.Effects.ne_gasCoin (h : result.Effects P tx tx.argumentRefs inputs)
    (hvalid : validateTransaction P tx = .ok ())
    (hfresh : ∀ n, P.derive (P.transactionDigest tx) 0 n ≠ tx.gasCoin.address) {obj : Object B}
    (hobj : obj ∈ result.createdObjects ++ result.changedObjects ++ result.destroyedObjects) :
    obj.address ≠ tx.gasCoin.address := by
  have hargument : ∀ {old : Object B}, Spendable P tx.sender tx.argumentRefs inputs old →
      Succeeds old obj → obj.address ≠ tx.gasCoin.address := by
    intro old hspendable hsucceeds
    obtain ⟨ref, href, hfound, -⟩ := hspendable
    have haddress : old.address = ref.address := by simpa using List.find?_some hfound
    rw [hsucceeds.1, haddress]
    exact validateTransaction_gasCoin hvalid ref href
  rcases List.mem_append.mp hobj with hobj | hdestroyed
  · rcases List.mem_append.mp hobj with hcreated | hchanged
    · obtain ⟨-, -, n, hderived⟩ := h.created obj hcreated
      exact hderived ▸ hfresh n
    · obtain ⟨old, hspendable, hsucceeds⟩ := h.changed obj hchanged
      exact hargument hspendable hsucceeds
  · obtain ⟨old, hspendable, hsucceeds⟩ := h.destroyed obj hdestroyed
    exact hargument hspendable hsucceeds

/-- The gas coin is changed once, and by what was used. -/
theorem gas_paid_exactly
    (hbcs : ∀ fields content, P.encodeFields fields = some content →
      P.decodeFields content = .ok fields)
    (hfresh : ∀ n, P.derive (P.transactionDigest tx) 0 n ≠ tx.gasCoin.address)
    (hvalid : validateTransaction P tx = .ok ()) (h : execute P tx inputs ext = .ok result) :
    ∃ old coin balance balance', findInput inputs tx.gasCoin.address = some old ∧
      result.changedObjects.filter (·.address = tx.gasCoin.address) = [coin] ∧
      (∀ obj ∈ result.createdObjects ++ result.destroyedObjects,
        obj.address ≠ tx.gasCoin.address) ∧
      balanceFromObject P old = some balance ∧ balanceFromObject P coin = some balance' ∧
      result.gasUsed ≤ balance.toNat ∧ balance'.toNat + result.gasUsed = balance.toNat ∧
      coin.version.toNat = old.version.toNat + 1 ∧ coin.owner = old.owner ∧
      coin.type = old.type := by
  obtain ⟨executed, gas, old, coin, hpays, -, hdoes, hresult⟩ := execute_eq_ok h
  obtain ⟨hfound, -⟩ := resolveGasCoinObject_eq_ok hpays.resolved
  obtain ⟨balance, balance', hold, hcoin, hsum⟩ := hpays.balance hbcs
  have hne : ∀ obj ∈ executed.createdObjects ++ executed.changedObjects
      ++ executed.destroyedObjects, obj.address ≠ tx.gasCoin.address :=
    fun _ hobj => hdoes.effects.ne_gasCoin hvalid hfresh hobj
  have haddress : coin.address = tx.gasCoin.address := by
    rw [hpays.coin]
    simpa using List.find?_some hfound
  refine ⟨old, coin, balance, balance', hfound, ?_, ?_, hold, hcoin, by omega, hsum,
    ObjectVersion.next_eq_some hpays.version, by rw [hpays.coin], by rw [hpays.coin]⟩
  · rw [hresult, List.filter_append, List.filter_eq_nil_iff.mpr, List.filter_singleton]
    · simp [haddress]
    · intro obj hobj
      simpa using hne obj (by simp [hobj])
  · rw [hresult]
    intro obj hobj
    refine hne obj ?_
    rcases List.mem_append.mp hobj with hcreated | hdestroyed
    · simp [hcreated]
    · simp [hdestroyed]

namespace Sample

theorem upperPlatform_bcs (fields : List (String × Value Unit)) (content : Blob)
    (h : upperPlatform.encodeFields fields = some content) :
    upperPlatform.decodeFields content = .ok fields := by
  obtain rfl := Option.some.inj h
  rfl

theorem upperPlatform_derive (d : Digest) (n : ℕ) :
    (upperPlatform.derive d 0 n).toNat = 2 ^ 255 + d.toNat % 2 ^ 128 * 2 ^ 64 + n % 2 ^ 64 := by
  have hd : d.toNat % 2 ^ 128 < 2 ^ 128 := Nat.mod_lt _ (by decide)
  have hn : n % 2 ^ 64 < 2 ^ 64 := Nat.mod_lt _ (by decide)
  show (BitVec.ofNat 256 _).toNat = _
  rw [BitVec.toNat_ofNat, Nat.mod_eq_of_lt]
  omega

theorem upperPlatform_fresh {a : Address} (ha : a.toNat < 2 ^ 255) (d : Digest) (n : ℕ) :
    upperPlatform.derive d 0 n ≠ a := by
  rintro rfl
  rw [upperPlatform_derive] at ha
  omega

end Sample

open Sample in
/-- Raising the level of the vault uses more than the base cost. -/
theorem gas_paid_exactly_raise :
    ∃ result, execute upperPlatform raiseTx (inputsWith vaultModule) .empty = .ok result ∧
      baseTransactionGasCost < result.gasUsed ∧
      ∃ old coin balance balance',
        findInput (inputsWith vaultModule) raiseTx.gasCoin.address = some old ∧
        result.changedObjects.filter (·.address = raiseTx.gasCoin.address) = [coin] ∧
        (∀ obj ∈ result.createdObjects ++ result.destroyedObjects,
          obj.address ≠ raiseTx.gasCoin.address) ∧
        balanceFromObject upperPlatform old = some balance ∧
        balanceFromObject upperPlatform coin = some balance' ∧
        result.gasUsed ≤ balance.toNat ∧ balance'.toNat + result.gasUsed = balance.toNat ∧
        coin.version.toNat = old.version.toNat + 1 ∧ coin.owner = old.owner ∧
        coin.type = old.type := by
  obtain ⟨result, h, hused⟩ := Outcome.exists_of_isOkAnd
    (x := execute upperPlatform raiseTx (inputsWith vaultModule) .empty)
    (p := fun result : ExecutionResult Blob => decide (baseTransactionGasCost < result.gasUsed))
    (by decide +kernel)
  exact ⟨result, h, of_decide_eq_true hused, gas_paid_exactly upperPlatform_bcs
    (upperPlatform_fresh (by decide) _) (by rfl) h⟩

end MeowChain
