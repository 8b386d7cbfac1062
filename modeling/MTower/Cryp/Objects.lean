import MTower.Lib.Heap
import MTower.Kernel.Param

/-!
# Transient objects of a Trusted Application

`tee_obj.c` and the object calls of `tee_svc_cryp.c`.  Objects, their attribute blocks and the
bignums in these are heap blocks, the tail queue `utc->objects` is the list of its elements, and
an object handle is the address of the object.  The session of the TA is current throughout, so
`tee_ta_get_current_session` and `to_user_ta_ctx` always give the same `utc`.

* `teeCrypObjProps`         the table of object types;
* `opAttr…`                 the attribute operations of `attr_ops`;
* `teeObjGet`, `teeObjClose`, `teeObjFree`  the object list;
* `uteeCrypObjAlloc`, `uteeCrypObjClose`, `uteeCrypObjReset`, `uteeCrypObjPopulate`,
  `uteeCrypObjCopy`         the system calls.

Walking a queue reads the elements, linking and unlinking writes the neighbours: each of them must
be an allocated block, otherwise the call faults.  Two ghosts are not in the source: a block
records the address it was allocated for, and `made` and `freed` count for each address the
objects that were placed there and the objects that were released there.
-/

set_option linter.unusedVariables false

namespace MTower.Cryp
open Lib Kernel

/-! ## constants -/

def teeErrorBadState : Nat := 0xFFFF0007
def teeErrorNotImplemented : Nat := 0xFFFF0009
def teeErrorNotSupported : Nat := 0xFFFF000A
def teeErrorSecurity : Nat := 0xFFFF000F
def teeErrorOverflow : Nat := 0xFFFF300F

def teeHandleFlagPersistent : Nat := 0x00010000
def teeHandleFlagInitialized : Nat := 0x00020000
def teeUsageDefault : Nat := 0xffffffff

/-- `TEE_TYPE_*` -/
def teeTypeGenericSecret : Nat := 0xA0000000
def teeTypeHmacMd5 : Nat := 0xA0000001
def teeTypeHmacSha1 : Nat := 0xA0000002
def teeTypeHmacSha224 : Nat := 0xA0000003
def teeTypeHmacSha256 : Nat := 0xA0000004
def teeTypeHmacSha384 : Nat := 0xA0000005
def teeTypeHmacSha512 : Nat := 0xA0000006
def teeTypeAes : Nat := 0xA0000010
def teeTypeDes : Nat := 0xA0000011
def teeTypeDes3 : Nat := 0xA0000013
def teeTypeRsaPublicKey : Nat := 0xA0000030
def teeTypeRsaKeypair : Nat := 0xA1000030
def teeTypeDsaPublicKey : Nat := 0xA0000031
def teeTypeDsaKeypair : Nat := 0xA1000031
def teeTypeEcdsaPublicKey : Nat := 0xA0000041
def teeTypeEcdsaKeypair : Nat := 0xA1000041
def teeTypeEcdhPublicKey : Nat := 0xA0000042
def teeTypeEcdhKeypair : Nat := 0xA1000042
def teeTypeData : Nat := 0xA00000BF

/-- `TEE_ATTR_*` -/
def teeAttrBitValue : Nat := 1 <<< 29
def teeAttrSecretValue : Nat := 0xC0000000
def teeAttrEccPrivateValue : Nat := 0xC0000341
def teeAttrEccPublicValueX : Nat := 0xD0000141
def teeAttrEccPublicValueY : Nat := 0xD0000241
def teeAttrEccCurve : Nat := 0xF0000441

/-- `TEE_TYPE_ATTR_*` -/
def teeTypeAttrRequired : Nat := 0x1
def teeTypeAttrOptionalGroup : Nat := 0x2
def teeTypeAttrSizeIndicator : Nat := 0x4
def teeTypeAttrGenKeyOpt : Nat := 0x8
def teeTypeAttrGenKeyReq : Nat := 0x10

/-! ## object types -/

/-- `ATTR_OPS_INDEX_*` -/
inductive OpsIndex where
  | secret
  | bignum
  | value
deriving DecidableEq, Repr

/-- the place in the attribute block that `raw_offs` gives -/
inductive Member where
  | secret
  | d
  | x
  | y
  | curve
deriving DecidableEq, Repr

/-- `struct tee_cryp_obj_type_attrs` -/
structure TypeAttr where
  attrId : Nat
  flags : Nat
  opsIndex : OpsIndex
  raw : Member
deriving DecidableEq, Repr

/-- `struct tee_cryp_obj_type_props` -/
structure TypeProps where
  objType : Nat
  minSize : Nat
  maxSize : Nat
  allocSize : Nat
  quanta : Nat
  typeAttrs : List TypeAttr
deriving DecidableEq, Repr

def teeCrypObjSecretValueAttrs : List TypeAttr :=
  [⟨teeAttrSecretValue, teeTypeAttrRequired ||| teeTypeAttrSizeIndicator, .secret, .secret⟩]

def teeCrypObjEccKeypairAttrs : List TypeAttr :=
  [⟨teeAttrEccPrivateValue, teeTypeAttrRequired, .bignum, .d⟩,
   ⟨teeAttrEccPublicValueX, teeTypeAttrRequired, .bignum, .x⟩,
   ⟨teeAttrEccPublicValueY, teeTypeAttrRequired, .bignum, .y⟩,
   ⟨teeAttrEccCurve, teeTypeAttrRequired, .value, .curve⟩]

/-- `sizeof(struct tee_cryp_obj_secret)` and `sizeof(struct ecc_keypair)` -/
def sizeofSecret : Nat := 8
def sizeofEccKeypair : Nat := 20

/-- the `PROP` entry of a type that stores a secret -/
def secretProp (objType quanta minSize maxSize size : Nat) : TypeProps :=
  ⟨objType, minSize, maxSize, size + sizeofSecret, quanta, teeCrypObjSecretValueAttrs⟩

def teeCrypObjProps : List TypeProps :=
  [secretProp teeTypeAes 64 128 256 (256 / 8),
   secretProp teeTypeDes 56 56 56 (64 / 8),
   secretProp teeTypeDes3 56 112 168 (192 / 8),
   secretProp teeTypeHmacMd5 8 64 512 (512 / 8),
   secretProp teeTypeHmacSha1 8 80 512 (512 / 8),
   secretProp teeTypeHmacSha224 8 112 512 (512 / 8),
   secretProp teeTypeHmacSha256 8 192 1024 (1024 / 8),
   secretProp teeTypeHmacSha384 8 256 1024 (1024 / 8),
   secretProp teeTypeHmacSha512 8 256 1024 (1024 / 8),
   secretProp teeTypeGenericSecret 8 0 4096 (4096 / 8),
   ⟨teeTypeEcdsaKeypair, 192, 521, sizeofEccKeypair, 1, teeCrypObjEccKeypairAttrs⟩]

def teeSvcFindTypeProps (objType : Nat) : Option TypeProps :=
  teeCrypObjProps.find? fun tp => tp.objType == objType

def teeSvcCrypObjFindTypeAttrIdx (attrId : Nat) (tp : TypeProps) : Option Nat :=
  tp.typeAttrs.findIdx? fun ta => ta.attrId == attrId

/-! ## state -/

/-- the fields of `TEE_ObjectInfo` that a transient object uses -/
structure ObjectInfo where
  objectType : Nat
  keySize : Nat
  maxKeySize : Nat
  objectUsage : Nat
  handleFlags : Nat
deriving DecidableEq, Repr

/-- `struct tee_obj` without its storage fields -/
structure TeeObj where
  info : ObjectInfo
  busy : Bool
  haveAttrs : Nat
  attr : Nat
deriving DecidableEq, Repr

/-- `struct tee_cryp_obj_secret` with the bytes behind it, and `struct ecc_keypair` -/
inductive Attr where
  | secret (keySize allocSize : Nat) (data : List UInt8)
  | ecc (d x y curve : Nat)
deriving DecidableEq, Repr

/-- `struct tee_cryp_state`; `ctx_finalize` is set or not -/
structure CrypState where
  algo : Nat
  mode : Nat
  key1 : Nat
  key2 : Nat
  ctx : Nat
  ctxFinalize : Bool
deriving DecidableEq, Repr

/-- `TEE_Attribute`: `content` is the value pair, or the buffer and its length -/
structure TeeAttribute where
  attributeID : Nat
  content : Nat × Nat
deriving DecidableEq, Repr

/-- the block types; `owner` is the object or the state the block was allocated for -/
inductive Block where
  | obj (o : TeeObj)
  | attr (owner : Nat) (x : Attr)
  | bignum (owner : Nat) (m : Member) (v : Nat)
  | state (cs : CrypState)
  | ctx (owner : Nat)
  | attrs (l : List TeeAttribute)
deriving DecidableEq, Repr

/-- the parts of `struct user_ta_ctx` the calls use, and the heap -/
structure Utc where
  heap : Heap Block
  objects : List Nat
  crypStates : List Nat
  made : Nat → Nat
  freed : Nat → Nat

def Utc.empty (answers : Nat → Nat) : Utc := ⟨Heap.empty answers, [], [], fun _ => 0, fun _ => 0⟩

def Utc.obj (u : Utc) (a : Nat) : Option TeeObj :=
  match u.heap.blocks a with
  | some (.obj o) => some o
  | _ => none

def Utc.st (u : Utc) (a : Nat) : Option CrypState :=
  match u.heap.blocks a with
  | some (.state cs) => some cs
  | _ => none

inductive Fault where
  | nullPointer
  | danglingPointer
  | badFree
  | outOfBounds
  | assertion
  | endless
deriving DecidableEq, Repr

abbrev C := StateT Utc (Except Fault)

/-! ## memory -/

def faultAt (a : Nat) : Fault := if a = 0 then .nullPointer else .danglingPointer

def blockAt (a : Nat) : C Block := do
  let u ← get
  match u.heap.blocks a with
  | some b => pure b
  | none => throw (faultAt a)

def objAt (a : Nat) : C TeeObj := do
  match ← blockAt a with
  | .obj o => pure o
  | _ => throw .danglingPointer

def stateAt (a : Nat) : C CrypState := do
  match ← blockAt a with
  | .state cs => pure cs
  | _ => throw .danglingPointer

def Utc.store (u : Utc) (a : Nat) (b : Block) : Utc := { u with heap := u.heap.store a b }

def storeAt (a : Nat) (b : Block) : C Unit := modify fun u => u.store a b

/-- `TEE_Malloc` with `TEE_MALLOC_FILL_ZERO` -/
def teeMalloc (b : Block) : C Nat := do
  let u ← get
  set { u with heap := (u.heap.alloc b).2 }
  pure (u.heap.alloc b).1

def Utc.erase (u : Utc) (a : Nat) : Utc := { u with heap := u.heap.erase a }

def Utc.eraseObj (u : Utc) (a : Nat) : Utc :=
  { u.erase a with freed := Function.update u.freed a (u.freed a + 1) }

def teeFree (a : Nat) : C Unit := do
  let u ← get
  if a = 0 then pure ()
  else
    match u.heap.blocks a with
    | some (.obj _) => set (u.eraseObj a)
    | some _ => set (u.erase a)
    | none => throw .badFree

/-! ## tail queues -/

/-- the elements before and after `a`, whose links an unlinking writes -/
def neighbours (a : Nat) : List Nat → List Nat
  | [] => []
  | [_] => []
  | b :: c :: l => if b = a then [c] else if c = a then b :: l.take 1 else neighbours a (c :: l)

/-- access every element of `l` -/
def touch {α : Type} (read : Nat → C α) : List Nat → C Unit
  | [] => pure ()
  | a :: l => do
    let _ ← read a
    touch read l

/-- `TAILQ_FOREACH` with the comparison of addresses: going on from an element reads its link -/
def lookup {α : Type} (read : Nat → C α) (id : Nat) : List Nat → C Bool
  | [] => pure false
  | a :: l =>
    if id = a then pure true
    else do
      let _ ← read a
      lookup read id l

/-! ## attribute operations -/

/-- what the cryptographic library decides: the algorithms that `cipher_get_ctx_size`,
`hash_get_ctx_size` and `mac_get_ctx_size` know, and `crypto_bignum_bin2bn` -/
structure Provider where
  cipher : Nat → Bool
  hash : Nat → Bool
  mac : Nat → Bool
  bin2bn : List UInt8 → Nat → Bool × Nat

def Attr.get? : Attr → Member → Option Nat
  | .ecc d _ _ _, .d => some d
  | .ecc _ x _ _, .x => some x
  | .ecc _ _ y _, .y => some y
  | .ecc _ _ _ c, .curve => some c
  | _, _ => none

def Attr.put : Attr → Member → Nat → Attr
  | .ecc _ x y c, .d, w => .ecc w x y c
  | .ecc d _ y c, .x, w => .ecc d w y c
  | .ecc d x _ c, .y, w => .ecc d x w c
  | .ecc d x y _, .curve, w => .ecc d x y w
  | a, _, _ => a

def memberAt (attr : Nat) (m : Member) : C Nat := do
  match ← blockAt attr with
  | .attr _ a =>
    match a.get? m with
    | some w => pure w
    | none => throw .danglingPointer
  | _ => throw .danglingPointer

def setMember (attr : Nat) (m : Member) (w : Nat) : C Unit := do
  match ← blockAt attr with
  | .attr own a => storeAt attr (.attr own (a.put m w))
  | _ => throw .danglingPointer

def bignumAt (bn : Nat) : C Nat := do
  match ← blockAt bn with
  | .bignum _ _ v => pure v
  | _ => throw .danglingPointer

def setBignum (bn v : Nat) : C Unit := do
  match ← blockAt bn with
  | .bignum own m _ => storeAt bn (.bignum own m v)
  | _ => throw .danglingPointer

def opAttrSecretValueFromUser (attr : Nat) (buffer : List UInt8) : C Nat := do
  match ← blockAt attr with
  | .attr own (.secret _ n data) =>
    if n < buffer.length then pure teeErrorSecurity
    else if data.length < buffer.length then throw .outOfBounds
    else do
      storeAt attr (.attr own (.secret buffer.length n (buffer ++ data.drop buffer.length)))
      pure teeSuccess
  | _ => throw .danglingPointer

def opAttrSecretValueFromObj (attr srcAttr : Nat) : C Nat := do
  match ← blockAt srcAttr with
  | .attr _ (.secret k _ src) =>
    match ← blockAt attr with
    | .attr own (.secret _ n data) =>
      if n < k then pure teeErrorBadState
      else if data.length < k ∨ src.length < k then throw .outOfBounds
      else do
        storeAt attr (.attr own (.secret k n (src.take k ++ data.drop k)))
        pure teeSuccess
    | _ => throw .danglingPointer
  | _ => throw .danglingPointer

def opAttrSecretValueClear (attr : Nat) : C Unit := do
  match ← blockAt attr with
  | .attr own (.secret _ n data) =>
    if data.length < n then throw .outOfBounds
    else storeAt attr (.attr own (.secret 0 n (List.replicate n 0 ++ data.drop n)))
  | _ => throw .danglingPointer

def opAttrBignumFromUser (p : Provider) (attr : Nat) (m : Member) (buffer : List UInt8) :
    C Nat := do
  let bn ← memberAt attr m
  let v ← bignumAt bn
  setBignum bn (p.bin2bn buffer v).2
  pure (if (p.bin2bn buffer v).1 then teeSuccess else teeErrorBadParameters)

def opAttrBignumFromObj (attr srcAttr : Nat) (m srcM : Member) : C Nat := do
  let bn ← memberAt attr m
  let src ← memberAt srcAttr srcM
  let v ← bignumAt src
  setBignum bn v
  pure teeSuccess

def opAttrBignumClear (attr : Nat) (m : Member) : C Unit := do
  let bn ← memberAt attr m
  setBignum bn 0

def opAttrBignumFree (attr : Nat) (m : Member) : C Unit := do
  let bn ← memberAt attr m
  teeFree bn
  setMember attr m 0

/-- the little endian word at the start of a buffer -/
def firstWord (buffer : List UInt8) : Nat := (buffer.take 4).foldr (fun b n => b.toNat + 256 * n) 0

def opAttrValueFromUser (attr : Nat) (m : Member) (buffer : List UInt8) : C Nat := do
  if buffer.length ≠ 8 then pure teeErrorGeneric
  else do
    setMember attr m (firstWord buffer)
    pure teeSuccess

def opAttrValueFromObj (attr srcAttr : Nat) (m srcM : Member) : C Nat := do
  let v ← memberAt srcAttr srcM
  setMember attr m v
  pure teeSuccess

def opAttrValueClear (attr : Nat) (m : Member) : C Unit := setMember attr m 0

/-- `attr_ops[ops_index].from_user` -/
def attrFromUser (p : Provider) (attr : Nat) (ta : TypeAttr) (buffer : List UInt8) : C Nat :=
  match ta.opsIndex with
  | .secret => opAttrSecretValueFromUser attr buffer
  | .bignum => opAttrBignumFromUser p attr ta.raw buffer
  | .value => opAttrValueFromUser attr ta.raw buffer

/-- `attr_ops[ops_index].from_obj`; `taSrc` is the attribute in the type of the source -/
def attrFromObj (attr srcAttr : Nat) (ta taSrc : TypeAttr) : C Nat :=
  match ta.opsIndex with
  | .secret => opAttrSecretValueFromObj attr srcAttr
  | .bignum => opAttrBignumFromObj attr srcAttr ta.raw taSrc.raw
  | .value => opAttrValueFromObj attr srcAttr ta.raw taSrc.raw

/-- `attr_ops[ops_index].free` -/
def attrFree (attr : Nat) (ta : TypeAttr) : C Unit :=
  match ta.opsIndex with
  | .secret => opAttrSecretValueClear attr
  | .bignum => opAttrBignumFree attr ta.raw
  | .value => opAttrValueClear attr ta.raw

/-- `attr_ops[ops_index].clear` -/
def attrClear (attr : Nat) (ta : TypeAttr) : C Unit :=
  match ta.opsIndex with
  | .secret => opAttrSecretValueClear attr
  | .bignum => opAttrBignumClear attr ta.raw
  | .value => opAttrValueClear attr ta.raw

/-- `f` on every attribute of the type -/
def forAttrs (f : TypeAttr → C Unit) : List TypeAttr → C Unit
  | [] => pure ()
  | ta :: l => do
    f ta
    forAttrs f l

/-- the loops of `tee_obj_attr_free` and `tee_obj_attr_clear` -/
def onAttrs (f : Nat → TypeAttr → C Unit) (o : Nat) : C Unit := do
  let obj ← objAt o
  if obj.attr = 0 then pure ()
  else
    match teeSvcFindTypeProps obj.info.objectType with
    | none => pure ()
    | some tp => forAttrs (f obj.attr) tp.typeAttrs

def teeObjAttrFree (o : Nat) : C Unit := onAttrs attrFree o

def teeObjAttrClear (o : Nat) : C Unit := onAttrs attrClear o

/-- `f` on every attribute of the type up to the first error -/
def copyAttrs (f : TypeAttr → C Nat) : List TypeAttr → C Nat
  | [] => pure teeSuccess
  | ta :: l => do
    let res ← f ta
    if res ≠ teeSuccess then pure res else copyAttrs f l

/-- the types that another type can be copied into, with the type to copy from -/
def publicKeyOf : List (Nat × Nat) :=
  [(teeTypeRsaPublicKey, teeTypeRsaKeypair), (teeTypeDsaPublicKey, teeTypeDsaKeypair),
   (teeTypeEcdsaPublicKey, teeTypeEcdsaKeypair), (teeTypeEcdhPublicKey, teeTypeEcdhKeypair)]

/-- `ta` from the attribute of the same id of a block of another type -/
def copyFromType (attr srcAttr : Nat) (tpSrc : TypeProps) (ta : TypeAttr) : C Nat :=
  match (teeSvcCrypObjFindTypeAttrIdx ta.attrId tpSrc).bind fun i => tpSrc.typeAttrs[i]? with
  | none => pure teeErrorBadState
  | some taSrc => attrFromObj attr srcAttr ta taSrc

def teeObjAttrCopyFrom (o src : Nat) : C Nat := do
  let obj ← objAt o
  let srcObj ← objAt src
  if obj.info.objectType = teeTypeData then pure teeSuccess
  else if obj.attr = 0 then pure teeErrorBadState
  else
    match teeSvcFindTypeProps obj.info.objectType with
    | none => pure teeErrorBadState
    | some tp =>
      if obj.info.objectType = srcObj.info.objectType then do
        let res ← copyAttrs (fun ta => attrFromObj obj.attr srcObj.attr ta ta) tp.typeAttrs
        if res ≠ teeSuccess then pure res
        else do
          storeAt o (.obj { obj with haveAttrs := srcObj.haveAttrs })
          pure teeSuccess
      else if (obj.info.objectType, srcObj.info.objectType) ∉ publicKeyOf then
        pure teeErrorBadParameters
      else
        match teeSvcFindTypeProps srcObj.info.objectType with
        | none => pure teeErrorBadState
        | some tpSrc => do
          let res ← copyAttrs (copyFromType obj.attr srcObj.attr tpSrc) tp.typeAttrs
          if res ≠ teeSuccess then pure res
          else do
            storeAt o (.obj { obj with haveAttrs := 1 <<< tp.typeAttrs.length - 1 })
            pure teeSuccess

/-! ## the object list -/

def teeObjAdd (o : Nat) : C Unit := do
  let u ← get
  touch objAt (u.objects.take 1)
  modify fun u => { u with objects := o :: u.objects }

/-- the object found is the one at the address `objId` -/
def teeObjGet (objId : Nat) : C Nat := do
  let u ← get
  let found ← lookup objAt objId u.objects
  pure (if found then teeSuccess else teeErrorBadParameters)

def teeObjAlloc : C Nat := do
  let o ← teeMalloc (.obj ⟨⟨0, 0, 0, 0, 0⟩, false, 0, 0⟩)
  if o = 0 then pure 0
  else do
    modify fun u => { u with made := Function.update u.made o (u.made o + 1) }
    pure o

/-- the attribute block stays allocated -/
def teeObjFree (o : Nat) : C Unit := do
  if o = 0 then pure ()
  else do
    teeObjAttrFree o
    teeFree o

def ObjectInfo.has (info : ObjectInfo) (flag : Nat) : Bool := info.handleFlags &&& flag != 0

/-- `TAILQ_REMOVE(&utc->objects, o, link)` -/
def removeObj (o : Nat) : C Unit := do
  let u ← get
  touch objAt (o :: neighbours o u.objects)
  modify fun u => { u with objects := u.objects.erase o }

/-- `pobj` is `NULL` in a transient object -/
def teeObjClose (o : Nat) : C Unit := do
  removeObj o
  let obj ← objAt o
  if obj.info.has teeHandleFlagPersistent then throw .nullPointer
  else teeObjFree o

/-- `while (!TAILQ_EMPTY(objects))`, for at most `n` rounds -/
def closeFirst : Nat → C Unit
  | 0 => do
    let u ← get
    if u.objects = [] then pure () else throw .endless
  | n + 1 => do
    let u ← get
    match u.objects with
    | [] => pure ()
    | o :: _ => do
      teeObjClose o
      closeFirst n

def teeObjCloseAll : C Unit := do
  let u ← get
  closeFirst u.objects.length

/-! ## allocation -/

def bnAllocMax (o attr : Nat) (m : Member) : C Bool := do
  let bn ← teeMalloc (.bignum o m 0)
  setMember attr m bn
  pure (bn ≠ 0)

/-- the `err` label of `crypto_asym_alloc_ecc_keypair` -/
def dropEccKeypair (attr : Nat) : C Nat := do
  let d ← memberAt attr .d
  teeFree d
  let x ← memberAt attr .x
  teeFree x
  pure teeErrorOutOfMemory

def cryptoAcipherAllocEccKeypair (o attr : Nat) : C Nat := do
  storeAt attr (.attr o (.ecc 0 0 0 0))
  if ← bnAllocMax o attr .d then
    if ← bnAllocMax o attr .x then
      if ← bnAllocMax o attr .y then pure teeSuccess
      else dropEccKeypair attr
    else dropEccKeypair attr
  else dropEccKeypair attr

def isEccKeypair (objType : Nat) : Bool :=
  objType == teeTypeEcdsaKeypair || objType == teeTypeEcdhKeypair

/-- the zeroed block that `tee_obj_set_type` allocates -/
def zeroAttr (tp : TypeProps) : Attr :=
  if isEccKeypair tp.objType then .ecc 0 0 0 0
  else .secret 0 0 (List.replicate (tp.allocSize - sizeofSecret) 0)

/-- the switch of `tee_obj_set_type` -/
def prepareAttr (o attr : Nat) (tp : TypeProps) : C Nat :=
  if isEccKeypair tp.objType then cryptoAcipherAllocEccKeypair o attr
  else do
    match ← blockAt attr with
    | .attr own (.secret k _ data) => do
      storeAt attr (.attr own (.secret k (tp.allocSize - sizeofSecret) data))
      pure teeSuccess
    | _ => throw .danglingPointer

def setTypeInfo (o objType maxKeySize : Nat) : C Nat := do
  let obj ← objAt o
  storeAt o (.obj { obj with info := { obj.info with objectType := objType
                                                     maxKeySize := maxKeySize
                                                     objectUsage := teeUsageDefault } })
  pure teeSuccess

def teeObjSetType (o objType maxKeySize : Nat) : C Nat := do
  let obj ← objAt o
  if obj.attr ≠ 0 then pure teeErrorBadState
  else if objType = teeTypeData then
    if maxKeySize ≠ 0 then pure teeErrorNotSupported else setTypeInfo o objType maxKeySize
  else
    match teeSvcFindTypeProps objType with
    | none => pure teeErrorNotSupported
    | some tp =>
      if maxKeySize % tp.quanta ≠ 0 then pure teeErrorNotSupported
      else if maxKeySize < tp.minSize then pure teeErrorNotSupported
      else if tp.maxSize < maxKeySize then pure teeErrorNotSupported
      else do
        let attr ← teeMalloc (.attr o (zeroAttr tp))
        storeAt o (.obj { obj with attr := attr })
        if attr = 0 then pure teeErrorOutOfMemory
        else do
          let res ← prepareAttr o attr tp
          if res ≠ teeSuccess then pure res else setTypeInfo o objType maxKeySize

/-! ## system calls -/

/-- the result and `*obj` -/
def uteeCrypObjAlloc (objType maxKeySize : Nat) : C (Nat × Nat) := do
  if objType = teeTypeData then pure (teeErrorNotSupported, 0)
  else do
    let o ← teeObjAlloc
    if o = 0 then pure (teeErrorOutOfMemory, 0)
    else do
      let res ← teeObjSetType o objType maxKeySize
      if res ≠ teeSuccess then do
        teeObjFree o
        pure (res, 0)
      else do
        teeObjAdd o
        pure (teeSuccess, o)

/-- the lookup, the test of `busy` and `tee_obj_close` are commented out in the source -/
def uteeCrypObjClose (obj : Nat) : C Nat := do
  teeObjFree obj
  pure teeSuccess

def uteeCrypObjReset (obj : Nat) : C Nat := do
  let res ← teeObjGet obj
  if res ≠ teeSuccess then pure res
  else do
    let o ← objAt obj
    if o.info.has teeHandleFlagPersistent then pure teeErrorBadParameters
    else do
      teeObjAttrClear obj
      storeAt obj (.obj { o with info := { o.info with
        keySize := 0
        objectUsage := teeUsageDefault
        handleFlags := o.info.handleFlags &&& (0xffffffff ^^^ teeHandleFlagInitialized) } })
      pure teeSuccess

/-- `struct utee_attribute` -/
structure UteeAttribute where
  a : Nat
  b : Nat
  attributeId : Nat
deriving DecidableEq, Repr

/-- both branches of the source copy the two words -/
def copyInAttrs (usrAttrs : List UteeAttribute) : List TeeAttribute :=
  usrAttrs.map fun t => ⟨t.attributeId, (t.a, t.b)⟩

inductive AttrUsage where
  | populate
  | generateKey
deriving DecidableEq, Repr

/-- bit `n` for every attribute with `flag`, and for every other one with `other` -/
def attrMasks (flag other : Nat) : List TypeAttr → Nat → Nat × Nat
  | [], _ => (0, 0)
  | ta :: l, n =>
    let m := attrMasks flag other l (n + 1)
    if ta.flags &&& flag ≠ 0 then (m.1 ||| 1 <<< n, m.2)
    else if ta.flags &&& other ≠ 0 then (m.1, m.2 ||| 1 <<< n)
    else m

/-- `attrs_found`, or `none` for an unknown or repeated attribute -/
def attrsFound (tp : TypeProps) : List TeeAttribute → Nat → Option Nat
  | [], found => some found
  | t :: l, found =>
    match teeSvcCrypObjFindTypeAttrIdx t.attributeID tp with
    | none => none
    | some i => if found &&& 1 <<< i ≠ 0 then none else attrsFound tp l (found ||| 1 <<< i)

def teeSvcCrypCheckAttr (usage : AttrUsage) (tp : TypeProps) (attrs : List TeeAttribute) : Nat :=
  let masks := match usage with
    | .populate => attrMasks teeTypeAttrRequired teeTypeAttrOptionalGroup tp.typeAttrs 0
    | .generateKey => attrMasks teeTypeAttrGenKeyReq teeTypeAttrGenKeyOpt tp.typeAttrs 0
  match attrsFound tp attrs 0 with
  | none => teeErrorItemNotFound
  | some found =>
    if found &&& masks.1 ≠ masks.1 then teeErrorItemNotFound
    else if usage = .populate ∧ found &&& masks.2 ≠ 0 ∧ found &&& masks.2 ≠ masks.2 then
      teeErrorItemNotFound
    else teeSuccess

def le32 (w : Nat) : List UInt8 := (List.range 4).map fun i => UInt8.ofNat (w / 256 ^ i)

/-- the buffer that `from_user` is given: the value pair, or the bytes of the TA -/
def TeeAttribute.buffer (mem : Nat → UInt8) (t : TeeAttribute) : List UInt8 :=
  if t.attributeID &&& teeAttrBitValue ≠ 0 then le32 t.content.1 ++ le32 t.content.2
  else (List.range t.content.2).map fun i => mem (t.content.1 + i)

/-- the loop of `tee_svc_cryp_obj_populate_type`: the result, `have_attrs` and `obj_size` -/
def populateAttrs (p : Provider) (mem : Nat → UInt8) (attr : Nat) (tp : TypeProps) :
    List TeeAttribute → Nat → Nat → C (Nat × Nat × Nat)
  | [], haveAttrs, size => pure (teeSuccess, haveAttrs, size)
  | t :: l, haveAttrs, size =>
    match teeSvcCrypObjFindTypeAttrIdx t.attributeID tp with
    | none => pure (teeErrorItemNotFound, haveAttrs, size)
    | some i =>
      match tp.typeAttrs[i]? with
      | none => throw .outOfBounds
      | some ta => do
        let res ← attrFromUser p attr ta (t.buffer mem)
        if res ≠ teeSuccess then pure (res, haveAttrs, size)
        else
          populateAttrs p mem attr tp l (haveAttrs ||| 1 <<< i)
            (if ta.flags &&& teeTypeAttrSizeIndicator ≠ 0 then
              (size + t.content.2 * 8) % 2 ^ 32 else size)

def teeSvcCrypObjPopulateType (p : Provider) (mem : Nat → UInt8) (o : Nat) (tp : TypeProps)
    (attrs : List TeeAttribute) : C Nat := do
  let obj ← objAt o
  let r ← populateAttrs p mem obj.attr tp attrs 0 0
  if r.1 ≠ teeSuccess then pure r.1
  else do
    -- the parity bits of a DES key are not counted
    let size := if obj.info.objectType = teeTypeDes ∨ obj.info.objectType = teeTypeDes3 then
      r.2.2 - r.2.2 / 8 else r.2.2
    storeAt o (.obj { obj with haveAttrs := r.2.1, info := { obj.info with keySize := size } })
    pure teeSuccess

def setInitialized (o : Nat) : C Unit := do
  let obj ← objAt o
  storeAt o (.obj { obj with info := { obj.info with
    handleFlags := obj.info.handleFlags ||| teeHandleFlagInitialized } })

/-- `TEE_Malloc` of no bytes gives `NULL` -/
def mallocAttrs (n : Nat) : C Nat :=
  if n = 0 then pure 0 else teeMalloc (.attrs (List.replicate n ⟨0, (0, 0)⟩))

def sizeofTeeAttribute : Nat := 12

/-- `utee_cryp_obj_populate` between the allocation and the `out` label -/
def populateWith (p : Provider) (mem : Nat → UInt8) (obj : Nat) (tp : TypeProps)
    (attrs : List TeeAttribute) : C Nat := do
  let res := teeSvcCrypCheckAttr .populate tp attrs
  if res ≠ teeSuccess then pure res
  else do
    let res ← teeSvcCrypObjPopulateType p mem obj tp attrs
    if res ≠ teeSuccess then pure res
    else do
      setInitialized obj
      pure teeSuccess

/-- `mem` is the memory of the TA; `attr_count` is the length of the list -/
def uteeCrypObjPopulate (p : Provider) (mem : Nat → UInt8) (obj : Nat)
    (usrAttrs : List UteeAttribute) : C Nat := do
  let res ← teeObjGet obj
  if res ≠ teeSuccess then pure res
  else do
    let o ← objAt obj
    if o.info.has teeHandleFlagPersistent then pure teeErrorBadParameters
    else if o.info.has teeHandleFlagInitialized then pure teeErrorBadParameters
    else
      match teeSvcFindTypeProps o.info.objectType with
      | none => pure teeErrorNotImplemented
      | some tp =>
        if 2 ^ 32 ≤ sizeofTeeAttribute * usrAttrs.length then pure teeErrorOverflow
        else do
          let attrs ← mallocAttrs usrAttrs.length
          if attrs = 0 then pure teeErrorOutOfMemory
          else do
            storeAt attrs (.attrs (copyInAttrs usrAttrs))
            let res ← populateWith p mem obj tp (copyInAttrs usrAttrs)
            teeFree attrs
            pure res

def uteeCrypObjCopy (dst src : Nat) : C Nat := do
  let res ← teeObjGet dst
  if res ≠ teeSuccess then pure res
  else do
    let res ← teeObjGet src
    if res ≠ teeSuccess then pure res
    else do
      let d ← objAt dst
      let s ← objAt src
      if !s.info.has teeHandleFlagInitialized then pure teeErrorBadParameters
      else if d.info.has teeHandleFlagPersistent then pure teeErrorBadParameters
      else if d.info.has teeHandleFlagInitialized then pure teeErrorBadParameters
      else do
        let res ← teeObjAttrCopyFrom dst src
        if res ≠ teeSuccess then pure res
        else do
          let d ← objAt dst
          let s ← objAt src
          storeAt dst (.obj { d with info := { d.info with
            handleFlags := d.info.handleFlags ||| teeHandleFlagInitialized
            keySize := s.info.keySize
            objectUsage := s.info.objectUsage } })
          pure teeSuccess

end MTower.Cryp
