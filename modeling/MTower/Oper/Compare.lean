import MTower.Oper.Hashing

/-!
# The verification of a MAC

* `Verified`           `TEE_MACCompareFinal` accepts a MAC and no other value, and ends the context;
* `macCompareFinal_exact`   so it does for an active handle;
* `compare_run`        and hence in every active state that a run reaches.
-/

set_option linter.unusedVariables false

namespace MTower.Oper
open Lib Kernel Cryp

variable {c : Crypto} {s t : Sys} {h k m n size : Nat} {o : Operation} {key : List UInt8}
  {f g : Nat → UInt8}

theorem lookup_mem {l : List (Nat × Nat)} {a b : Nat} (h : l.lookup a = some b) : (a, b) ∈ l := by
  obtain ⟨l1, l2, rfl, -⟩ := List.lookup_eq_some_iff.mp h
  exact List.mem_append_right l1 List.mem_cons_self

/-- a MAC fits into the buffer that it is compared in -/
theorem macSize_le (hm : teeMacGetDigestSize m = some size) : size ≤ teeMaxHashSize := by
  have hall : ∀ x ∈ teeAlgHash ++ teeAlgHmac, x.2 ≤ teeMaxHashSize := by decide
  unfold teeMacGetDigestSize at hm
  split at hm
  · exact hall _ (lookup_mem hm)
  split at hm
  · cases hm
    decide
  split at hm
  · cases hm
    decide
  · cases hm

/-- every MAC has a size -/
theorem macSize_some {a : Setup} (ha : setupOf m k = some a)
    (hclass : teeAlgGetClass m = teeOperationMac) : ∃ size, teeMacGetDigestSize m = some size := by
  have hother : ∀ {l : List Nat}, (∀ m ∈ l, teeAlgGetClass m ≠ teeOperationMac) → m ∉ l :=
    fun hl hm => hl m hm hclass
  have hpad : m ≠ teeAlgRsaNoPad := fun e =>
    hother (l := [teeAlgRsaNoPad]) (by decide) (List.mem_singleton.mpr e)
  have hall : ∀ m ∈ teeAlgMac, (teeMacGetDigestSize m).isSome = true := by decide
  have hm : m ∈ teeAlgMac := by
    by_contra hm
    unfold setupOf at ha
    rw [if_neg (hother (by decide)), if_neg (hother (by decide)), if_neg (hother (by decide)),
      if_neg hpad, if_neg (hother (by decide)), if_neg (hother (by decide)), if_neg hm] at ha
    cases ha
  exact Option.isSome_iff_exists.mp (hall m hm)

theorem bytes_eq_iff : Ptr.bytes (some f) 0 n = (List.range n).map g ↔
    ((List.range n).all fun i => f i == g i) = true := by
  have hb : Ptr.bytes (some f) 0 n = (List.range n).map f := by
    refine List.map_congr_left fun i _ => ?_
    rw [Nat.zero_add]
  rw [hb, List.map_inj_left, List.all_eq_true]
  simp

/-- the context has ended -/
def Finished (h : Nat) (s : Sys) : Prop := ∃ o, s.heap.blocks h = some (.op o) ∧
  o.has teeHandleFlagInitialized = false ∧ o.operationState = teeOperationStateInitial

/-- `tag` is what `TEE_MACComputeFinal` gives for the last piece `x` of the message; a comparison
accepts `tag` and nothing else, it does not read a value of another length, which may be `NULL`, and
it ends the context -/
structure Verified (c : Crypto) (h size : Nat) (x : Source) (s : Sys) (tag : List UInt8) : Prop where
  length : tag.length = size
  fits : size ≤ teeMaxHashSize
  computed : ∀ room, size ≤ room → room ≤ c.maxChunk →
    wp (teeMacComputeFinal c h x.ptr x.length true (some room)) (fun r t =>
      r = (teeSuccess, size) ∧ c.written r.2 t.log = tag) s
  compared : ∀ f macLen, wp (teeMacCompareFinal c h x.ptr x.length (some f) macLen) (fun res t =>
    (res = teeSuccess ↔ macLen = size ∧ Ptr.bytes (some f) 0 macLen = tag) ∧
    (res ≠ teeSuccess → res = teeErrorMacInvalid) ∧ Finished h t) s
  unread : ∀ mac macLen, macLen ≠ size →
    wp (teeMacCompareFinal c h x.ptr x.length mac macLen) (fun res t =>
      res = teeErrorMacInvalid ∧ Finished h t) s

/-- the MAC is computed, and then compared -/
theorem macCompareFinal_wp (hw : c.Works) (hmax : c.maxChunk = 0x400) (hl : Listed h s)
    (hs : Hasher c teeOperationMac size h key o s) (hinit : o.has teeHandleFlagInitialized = true)
    (hact : o.operationState = teeOperationStateActive) (hfits : size ≤ teeMaxHashSize) (x : Source)
    {mac : Ptr} {macLen : Nat} {Q : Nat → Sys → Prop}
    (hq : ∀ t, t.heap.blocks h = some (.op o.idle) →
      t.log = .final o.state [] size :: fedLog o.state x.bytes s.log →
      wp (if size ≠ macLen then pure teeErrorMacInvalid
        else do
          if ← sameMac c mac size then do
            updateOp h fun o => { o with operationState := teeOperationStateInitial }
            pure teeSuccess
          else pure teeErrorMacInvalid)
        (fun res t => res ∈ [teeSuccess, teeErrorMacInvalid] ∧ Q res t) t) :
    wp (teeMacCompareFinal c h x.ptr x.length mac macLen) Q s := by
  have hroom : teeMaxHashSize ≤ c.maxChunk := by
    rw [hmax]
    decide
  rw [teeMacCompareFinal, wp_bind, macCompareFinal, if_neg hl.ne, wp_bind,
    wp_of_eq (opAt_eq hs.handle), if_neg (not_not.mpr hs.cls), if_neg (by rw [hinit]; decide),
    if_neg (not_not.mpr hact), wp_bind]
  refine wp_mono (macComputeFinal_spec hw hl hs hinit hact x hroom) ?_
  intro r t ht
  rw [if_neg (Nat.not_lt.mpr hfits)] at ht
  obtain ⟨rfl, ho, hlog⟩ := ht
  rw [if_neg (not_not.mpr rfl)]
  refine wp_mono (hq t ho.handle hlog) ?_
  rintro res v ⟨hres, hv⟩
  rw [leave, if_pos hres]
  exact hv

/-- **A comparison is exact.** -/
theorem macCompareFinal_exact (hw : c.Works) (hmax : c.maxChunk = 0x400) (hl : Listed h s)
    (hs : Hasher c teeOperationMac size h key o s) (hinit : o.has teeHandleFlagInitialized = true)
    (hact : o.operationState = teeOperationStateActive) (hfits : size ≤ teeMaxHashSize) (x : Source) :
    Verified c h size x s (c.written size (.final o.state [] size :: fedLog o.state x.bytes s.log)) where
  length := by
    show ((List.range size).map _).length = size
    rw [List.length_map, List.length_range]
  fits := hfits
  computed := by
    intro room hsize hroom
    refine wp_mono (macComputeFinal_spec hw hl hs hinit hact x hroom) ?_
    intro r t ht
    rw [if_neg (Nat.not_lt.mpr hsize)] at ht
    obtain ⟨rfl, -, hlog⟩ := ht
    rw [hlog]
    exact ⟨rfl, rfl⟩
  compared := by
    intro f macLen
    refine macCompareFinal_wp hw hmax hl hs hinit hact hfits x fun t ho hlog => ?_
    have hidle : Finished h t := ⟨_, ho, idle_initialized o, rfl⟩
    have hne : teeErrorMacInvalid ≠ teeSuccess := by decide
    by_cases hlen : size ≠ macLen
    · rw [if_pos hlen]
      refine ⟨by decide, ?_, fun _ => rfl, hidle⟩
      exact iff_of_false hne fun e => hlen e.1.symm
    rw [if_neg hlen, wp_bind]
    rw [not_not] at hlen
    subst hlen
    have heq := bytes_eq_iff (f := f) (g := c.mac t.log) (n := size)
    have htag : c.written size (.final o.state [] size :: fedLog o.state x.bytes s.log) =
        (List.range size).map (c.mac t.log) := by
      rw [hlog]
      rfl
    rw [htag]
    show wp (if (List.range size).all (fun i => f i == c.mac t.log i) = true then _ else _) _ t
    by_cases hsame : (List.range size).all (fun i => f i == c.mac t.log i) = true
    · rw [if_pos hsame, wp_bind, wp_of_eq (updateOp_eq ho)]
      refine ⟨by decide, iff_of_true rfl ⟨rfl, heq.mpr hsame⟩, fun e => absurd rfl e, _, store_self _,
        idle_initialized o, rfl⟩
    · rw [if_neg hsame]
      exact ⟨by decide, iff_of_false hne fun e => hsame (heq.mp e.2), fun _ => rfl, hidle⟩
  unread := by
    intro mac macLen hlen
    refine macCompareFinal_wp hw hmax hl hs hinit hact hfits x fun t ho hlog => ?_
    rw [if_pos (Ne.symm hlen)]
    exact ⟨by decide, rfl, _, ho, idle_initialized o, rfl⟩

/-- **In every active state reached a comparison is exact.** -/
theorem compare_run (hw : c.Works) (hmax : c.maxChunk = 0x400) (hc : Core c.provider s.utc)
    (hreg : WellFormed s) (hlog : s.log = []) (hclass : teeAlgGetClass m = teeOperationMac)
    (l : List Step) :
    wlp (useOperation c m k n l) (fun r t => r.1 = teeSuccess → ∀ o,
      t.heap.blocks r.2 = some (.op o) → o.operationState = teeOperationStateActive →
      ∃ size, teeMacGetDigestSize m = some size ∧
        ∀ x : Source, ∃ tag, Verified c r.2 size x t tag) s := by
  refine wlp_mono (wlp_and (reachedAt_run hc hlog (.inr hclass) l) (listed_run hreg l)) ?_
  rintro r t ⟨h1, h2⟩ hr o ho hact
  obtain ⟨h0, ⟨o1, ho1, hg⟩, a, ha, o2, ho2, hseat⟩ := h1 hr
  obtain ⟨size, hsize⟩ := macSize_some ha hclass
  refine ⟨size, hsize, fun x => ?_⟩
  rw [ho] at ho1 ho2
  cases ho1
  cases ho2
  have hm : o.info.operationClass = teeOperationMac := by
    rw [hg.cls, hseat.algorithm]
    exact hclass
  have hset := hg.keySet hact
  obtain ⟨key, keys, hkey, -⟩ := hg.keys hset
  have hh := hg.hasher ho hm hset (by rw [hseat.algorithm]; exact hsize) hkey
  exact ⟨_, macCompareFinal_exact hw hmax (h2 hr) hh (hg.active.mp hact) hact (macSize_le hsize) x⟩

/-- the answers to a comparison with the sum that the message has, and to one with another value -/
def comparisons (c : Crypto) (s : Sys) (l : List Step) (tag : List UInt8) : List (Option Nat) :=
  match useOperation c teeAlgHmacSha256 teeModeMac 256 l s with
  | .error _ => []
  | .ok (r, t) =>
    [tag, tag.map (· + 1), tag.take 31].map fun d =>
      match teeMacCompareFinal c r.2 (some fun _ => 9) 3 (some fun i => d.getD i 0) d.length t with
      | .error _ => none
      | .ok (res, _) => some res

/-- the key is set and a piece of a message is taken -/
def hmacOpen : List Step := [.setOperationKey 0x1000, .macInit, .macUpdate (some fun _ => 7) 5]

theorem compare_run_hmac :
    comparisons sumCrypto (Sys.start (behind sampleProvider hmacKey) Cryp.sampleAnswers) hmacOpen
      (sumHash 32 ((List.range 32).map UInt8.ofNat) [7, 7, 7, 7, 7, 9, 9, 9]) =
      [some teeSuccess, some teeErrorMacInvalid, some teeErrorMacInvalid] ∧
    wlp (useOperation sumCrypto teeAlgHmacSha256 teeModeMac 256 hmacOpen) (fun r t =>
      r.1 = teeSuccess → ∀ o, t.heap.blocks r.2 = some (.op o) →
      o.operationState = teeOperationStateActive →
      ∃ size, teeMacGetDigestSize teeAlgHmacSha256 = some size ∧
        ∀ x : Source, ∃ tag, Verified sumCrypto r.2 size x t tag)
      (Sys.start (behind sampleProvider hmacKey) Cryp.sampleAnswers) := by
  have hl : ∀ h, Call.objClose h ∉ hmacKey := by
    intro h hm
    simp [hmacKey] at hm
  have hc := core_behind sampleProvider hl
  refine ⟨by decide +kernel, ?_⟩
  generalize behind sampleProvider hmacKey = u at hc
  exact compare_run (c := sumCrypto) (s := Sys.start u Cryp.sampleAnswers) (fun _ _ => rfl) rfl hc
    (start_wellFormed _ _) rfl (by decide) hmacOpen

end MTower.Oper
