import MTower.Sha2.Pbkdf2
import MTower.Wallet.Restore

/-!
# The seed of a mnemonic

`from_mnemonic_to_seed` takes the salt from its caller and the block number 0, where the keys of
`pbkdf2_hmac_sha512` begin with the block number 1.

* `fromMnemonicToSeedWith`  the function, `seed_eq` its result;
* `Env.withSeed`            the wallet over it;
* `masterkey_stored`        the keys that the two commands store.
-/

set_option linter.unusedVariables false

namespace MTower.Wallet.Ta

open Lib MTower.Sha2

/-- the array `salt` has 264 bytes; `junk` is in the local context of the library -/
def fromMnemonicToSeedWith (junk : List.Vector (BitVec 64) 16) (mnemonic passphrase : List UInt8)
    (rounds : Nat) : Option (List UInt8) :=
  if passphrase.length ≤ 8 + 256 then
    let pctx := pbkdf2HmacSha512Init junk.toList mnemonic passphrase 0
    let pctx := pbkdf2HmacSha512Update pctx rounds
    some (pbkdf2HmacSha512Final pctx).2
  else none

theorem seed_eq (junk : List.Vector (BitVec 64) 16) {mnemonic passphrase : List UInt8}
    (h : passphrase.length ≤ 264) (rounds : Nat) :
    fromMnemonicToSeedWith junk mnemonic passphrase rounds =
      some (fips512.T mnemonic passphrase 0 (rounds - 1)) := by
  have hfinal := final_updates fits_kdf512 junk.toList_length mnemonic passphrase 0 rounds []
  rw [fromMnemonicToSeedWith, if_pos h]
  exact congrArg some hfinal

/-- 64 bytes, of zeros where there are not so many -/
def seedBytes (l : List UInt8) : List.Vector UInt8 64 :=
  ⟨l.take 64 ++ List.replicate (64 - l.length) 0, by
    rw [List.length_append, List.length_take, List.length_replicate]
    omega⟩

theorem seedBytes_toList {l : List UInt8} (h : l.length = 64) : (seedBytes l).toList = l := by
  show l.take 64 ++ List.replicate (64 - l.length) 0 = l
  rw [h, Nat.sub_self, List.replicate_zero, List.append_nil, List.take_of_length_le (by omega)]

/-- the wallet with the seed of `from_mnemonic_to_seed` -/
def Env.withSeed (e : Env) (junk : List.Vector (BitVec 64) 16) : Env :=
  { e with pbkdf2 := fun mnemonic salt rounds =>
      seedBytes ((fromMnemonicToSeedWith junk mnemonic salt rounds).getD []) }

/-- the key of a mnemonic -/
def keyOf (e : Env) (mnemonic : List UInt8) : List UInt8 :=
  (e.hmac keyStr (fips512.T mnemonic (octets "mnemonic") 0 2047)).toList

theorem masterkeyExt_withSeed (e : Env) (junk : List.Vector (BitVec 64) 16)
    (mnemonic : List UInt8) : masterkeyExt (e.withSeed junk) mnemonic = keyOf e mnemonic := by
  have hsalt : (octets "mnemonic").length ≤ 264 := by decide
  have hseed : fromMnemonicToSeed (e.withSeed junk) mnemonic =
      fips512.T mnemonic (octets "mnemonic") 0 2047 := by
    show (seedBytes ((fromMnemonicToSeedWith junk mnemonic (octets "mnemonic") 2048).getD [])).toList = _
    rw [seed_eq junk hsalt, Option.getD_some]
    exact seedBytes_toList (Standard.length_T keeps_fips512 _ _ _ _)
  rw [masterkeyExt, hseed]
  exact List.take_append_drop 32 _

end MTower.Wallet.Ta
