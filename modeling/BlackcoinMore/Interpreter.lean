import BlackcoinMore.ConditionStack
import BlackcoinMore.ScriptNum
import BlackcoinMore.Sighash

/-! `EvalScript` of `script/interpreter.cpp`: the loop that reads a script opcode by opcode with
`GetOp` and runs each one on the main stack and the alt stack, under the condition stack
`vfExec` of the enclosing `OP_IF`s. The stack is a `std::vector` with its top at the end.

A statement leaves the loop early in one of three ways (`Exit`): a `return set_error(...)`, an
exception that the `catch (...)` turns into `SCRIPT_ERR_UNKNOWN_ERROR`, or a failed `assert`,
which stops the process. `stack.at` and `popstack` throw on a stack too short for them, and the
script number constructor throws `scriptnum_error`.

The condition stack is a parameter with the five members `EvalScript` calls (`CondStack`): the
source uses `ConditionStack`, and the `std::vector<bool>` it replaced is the other instance. The
signature checker is the virtual interface `BaseSignatureChecker`, and the hash functions and
`CPubKey::CheckLowS` are oracles. -/

namespace BlackcoinMore.Interpreter
open Primitives ByteCodec ScriptNum ScriptOps
open Sighash (SigVersion)

/-! ### Limits, flags and errors -/

def MAX_SCRIPT_ELEMENT_SIZE : Nat := 520
def MAX_OPS_PER_SCRIPT : Nat := 201
def MAX_PUBKEYS_PER_MULTISIG : Int := 20
def MAX_SCRIPT_SIZE : Nat := 10000
def MAX_STACK_SIZE : Nat := 1000
def VALIDATION_WEIGHT_PER_SIGOP_PASSED : Int64 := 50
/-- `CTxIn::SEQUENCE_LOCKTIME_DISABLE_FLAG`, `1U << 31`. -/
def SEQUENCE_LOCKTIME_DISABLE_FLAG : Int64 := 0x80000000

def SCRIPT_VERIFY_STRICTENC : UInt32 := (1 : UInt32) <<< 1
def SCRIPT_VERIFY_DERSIG : UInt32 := (1 : UInt32) <<< 2
def SCRIPT_VERIFY_LOW_S : UInt32 := (1 : UInt32) <<< 3
def SCRIPT_VERIFY_NULLDUMMY : UInt32 := (1 : UInt32) <<< 4
def SCRIPT_VERIFY_MINIMALDATA : UInt32 := (1 : UInt32) <<< 6
def SCRIPT_VERIFY_DISCOURAGE_UPGRADABLE_NOPS : UInt32 := (1 : UInt32) <<< 7
def SCRIPT_VERIFY_CHECKLOCKTIMEVERIFY : UInt32 := (1 : UInt32) <<< 9
def SCRIPT_VERIFY_CHECKSEQUENCEVERIFY : UInt32 := (1 : UInt32) <<< 10
def SCRIPT_VERIFY_MINIMALIF : UInt32 := (1 : UInt32) <<< 13
def SCRIPT_VERIFY_NULLFAIL : UInt32 := (1 : UInt32) <<< 14
def SCRIPT_VERIFY_WITNESS_PUBKEYTYPE : UInt32 := (1 : UInt32) <<< 15
def SCRIPT_VERIFY_CONST_SCRIPTCODE : UInt32 := (1 : UInt32) <<< 16
def SCRIPT_VERIFY_DISCOURAGE_UPGRADABLE_PUBKEYTYPE : UInt32 := (1 : UInt32) <<< 20

/-- Whether `flags` has the bit of `flag`. -/
def hasFlag (flags flag : UInt32) : Bool := flags &&& flag != 0

inductive ScriptError where
  | SCRIPT_ERR_OK
  | SCRIPT_ERR_UNKNOWN_ERROR
  | SCRIPT_ERR_EVAL_FALSE
  | SCRIPT_ERR_OP_RETURN
  | SCRIPT_ERR_SCRIPT_SIZE
  | SCRIPT_ERR_PUSH_SIZE
  | SCRIPT_ERR_OP_COUNT
  | SCRIPT_ERR_STACK_SIZE
  | SCRIPT_ERR_SIG_COUNT
  | SCRIPT_ERR_PUBKEY_COUNT
  | SCRIPT_ERR_VERIFY
  | SCRIPT_ERR_EQUALVERIFY
  | SCRIPT_ERR_CHECKMULTISIGVERIFY
  | SCRIPT_ERR_CHECKSIGVERIFY
  | SCRIPT_ERR_NUMEQUALVERIFY
  | SCRIPT_ERR_BAD_OPCODE
  | SCRIPT_ERR_DISABLED_OPCODE
  | SCRIPT_ERR_INVALID_STACK_OPERATION
  | SCRIPT_ERR_INVALID_ALTSTACK_OPERATION
  | SCRIPT_ERR_UNBALANCED_CONDITIONAL
  | SCRIPT_ERR_NEGATIVE_LOCKTIME
  | SCRIPT_ERR_UNSATISFIED_LOCKTIME
  | SCRIPT_ERR_SIG_HASHTYPE
  | SCRIPT_ERR_SIG_DER
  | SCRIPT_ERR_MINIMALDATA
  | SCRIPT_ERR_SIG_PUSHONLY
  | SCRIPT_ERR_SIG_HIGH_S
  | SCRIPT_ERR_SIG_NULLDUMMY
  | SCRIPT_ERR_PUBKEYTYPE
  | SCRIPT_ERR_CLEANSTACK
  | SCRIPT_ERR_MINIMALIF
  | SCRIPT_ERR_SIG_NULLFAIL
  | SCRIPT_ERR_DISCOURAGE_UPGRADABLE_NOPS
  | SCRIPT_ERR_DISCOURAGE_UPGRADABLE_WITNESS_PROGRAM
  | SCRIPT_ERR_DISCOURAGE_UPGRADABLE_TAPROOT_VERSION
  | SCRIPT_ERR_DISCOURAGE_OP_SUCCESS
  | SCRIPT_ERR_DISCOURAGE_UPGRADABLE_PUBKEYTYPE
  | SCRIPT_ERR_WITNESS_PROGRAM_WRONG_LENGTH
  | SCRIPT_ERR_WITNESS_PROGRAM_WITNESS_EMPTY
  | SCRIPT_ERR_WITNESS_PROGRAM_MISMATCH
  | SCRIPT_ERR_WITNESS_MALLEATED
  | SCRIPT_ERR_WITNESS_MALLEATED_P2SH
  | SCRIPT_ERR_WITNESS_UNEXPECTED
  | SCRIPT_ERR_WITNESS_PUBKEYTYPE
  | SCRIPT_ERR_SCHNORR_SIG_SIZE
  | SCRIPT_ERR_SCHNORR_SIG_HASHTYPE
  | SCRIPT_ERR_SCHNORR_SIG
  | SCRIPT_ERR_TAPROOT_WRONG_CONTROL_SIZE
  | SCRIPT_ERR_TAPSCRIPT_VALIDATION_WEIGHT
  | SCRIPT_ERR_TAPSCRIPT_CHECKMULTISIG
  | SCRIPT_ERR_TAPSCRIPT_MINIMALIF
  | SCRIPT_ERR_OP_CODESEPARATOR
  | SCRIPT_ERR_SIG_FINDANDDELETE
  deriving DecidableEq, Repr

/-- How a statement of `EvalScript` leaves it: `return set_error(serror, e)`, a C++ exception with
its `what()`, or a failed `assert`. -/
inductive Exit where
  | fail (serror : ScriptError)
  | throw (what : String)
  | abort (what : String)
  deriving DecidableEq, Repr

def Exit.isAbort : Exit → Bool
  | .abort _ => true
  | _ => false

/-- The `what()` of the exceptions `stack.at` and `popstack` throw. -/
def OUT_OF_RANGE : String := "vector::_M_range_check"
def POPSTACK_EMPTY : String := "popstack(): stack empty"

/-! ### Opcodes -/

def OP_0 : UInt8 := 0x00
def OP_1NEGATE : UInt8 := 0x4f
def OP_1 : UInt8 := 0x51
def OP_16 : UInt8 := 0x60
def OP_IF : UInt8 := 0x63
def OP_NOTIF : UInt8 := 0x64
def OP_ENDIF : UInt8 := 0x68
def OP_ROLL : UInt8 := 0x7a
def OP_EQUALVERIFY : UInt8 := 0x88
def OP_1ADD : UInt8 := 0x8b
def OP_1SUB : UInt8 := 0x8c
def OP_NEGATE : UInt8 := 0x8f
def OP_ABS : UInt8 := 0x90
def OP_NOT : UInt8 := 0x91
def OP_0NOTEQUAL : UInt8 := 0x92
def OP_ADD : UInt8 := 0x93
def OP_SUB : UInt8 := 0x94
def OP_BOOLAND : UInt8 := 0x9a
def OP_BOOLOR : UInt8 := 0x9b
def OP_NUMEQUAL : UInt8 := 0x9c
def OP_NUMEQUALVERIFY : UInt8 := 0x9d
def OP_NUMNOTEQUAL : UInt8 := 0x9e
def OP_LESSTHAN : UInt8 := 0x9f
def OP_GREATERTHAN : UInt8 := 0xa0
def OP_LESSTHANOREQUAL : UInt8 := 0xa1
def OP_GREATERTHANOREQUAL : UInt8 := 0xa2
def OP_MIN : UInt8 := 0xa3
def OP_MAX : UInt8 := 0xa4
def OP_RIPEMD160 : UInt8 := 0xa6
def OP_SHA1 : UInt8 := 0xa7
def OP_SHA256 : UInt8 := 0xa8
def OP_HASH160 : UInt8 := 0xa9
def OP_HASH256 : UInt8 := 0xaa
def OP_CHECKSIGVERIFY : UInt8 := 0xad
def OP_CHECKMULTISIGVERIFY : UInt8 := 0xaf

/-- The case blocks of the `switch (opcode)` of `EvalScript`, one for each group of labels that
shares a block; `bad` is the `default`. -/
inductive Handler where
  | pushNumber | nop | checkLockTimeVerify | checkSequenceVerify | upgradableNop
  | ifNotIf | else_ | endif | verify | return_
  | toAltStack | fromAltStack | drop2 | dup2 | dup3 | over2 | rot2 | swap2 | ifDup | depth
  | drop | dup | nip | over | pickRoll | rot | swap | tuck | size
  | equal | numeric1 | numeric2 | within | hash | codeSeparator | checkSig | checkSigAdd
  | checkMultiSig | bad
  deriving DecidableEq, Repr

/-- The labels of each case block. -/
def handlerOf (opcode : UInt8) : Handler :=
  match opcode.toNat with
  -- OP_1NEGATE, OP_1 ... OP_16
  | 0x4f | 0x51 | 0x52 | 0x53 | 0x54 | 0x55 | 0x56 | 0x57 | 0x58 | 0x59 | 0x5a | 0x5b | 0x5c | 0x5d
  | 0x5e | 0x5f | 0x60 => .pushNumber
  | 0x61 => .nop                                       -- OP_NOP
  | 0xb1 => .checkLockTimeVerify                       -- OP_CHECKLOCKTIMEVERIFY
  | 0xb2 => .checkSequenceVerify                       -- OP_CHECKSEQUENCEVERIFY
  -- OP_NOP1, OP_NOP4 ... OP_NOP10
  | 0xb0 | 0xb3 | 0xb4 | 0xb5 | 0xb6 | 0xb7 | 0xb8 | 0xb9 => .upgradableNop
  | 0x63 | 0x64 => .ifNotIf                            -- OP_IF, OP_NOTIF
  | 0x67 => .else_                                     -- OP_ELSE
  | 0x68 => .endif                                     -- OP_ENDIF
  | 0x69 => .verify                                    -- OP_VERIFY
  | 0x6a => .return_                                   -- OP_RETURN
  | 0x6b => .toAltStack                                -- OP_TOALTSTACK
  | 0x6c => .fromAltStack                              -- OP_FROMALTSTACK
  | 0x6d => .drop2                                     -- OP_2DROP
  | 0x6e => .dup2                                      -- OP_2DUP
  | 0x6f => .dup3                                      -- OP_3DUP
  | 0x70 => .over2                                     -- OP_2OVER
  | 0x71 => .rot2                                      -- OP_2ROT
  | 0x72 => .swap2                                     -- OP_2SWAP
  | 0x73 => .ifDup                                     -- OP_IFDUP
  | 0x74 => .depth                                     -- OP_DEPTH
  | 0x75 => .drop                                      -- OP_DROP
  | 0x76 => .dup                                       -- OP_DUP
  | 0x77 => .nip                                       -- OP_NIP
  | 0x78 => .over                                      -- OP_OVER
  | 0x79 | 0x7a => .pickRoll                           -- OP_PICK, OP_ROLL
  | 0x7b => .rot                                       -- OP_ROT
  | 0x7c => .swap                                      -- OP_SWAP
  | 0x7d => .tuck                                      -- OP_TUCK
  | 0x82 => .size                                      -- OP_SIZE
  | 0x87 | 0x88 => .equal                              -- OP_EQUAL, OP_EQUALVERIFY
  -- OP_1ADD, OP_1SUB, OP_NEGATE, OP_ABS, OP_NOT, OP_0NOTEQUAL
  | 0x8b | 0x8c | 0x8f | 0x90 | 0x91 | 0x92 => .numeric1
  -- OP_ADD, OP_SUB, OP_BOOLAND ... OP_MAX
  | 0x93 | 0x94 | 0x9a | 0x9b | 0x9c | 0x9d | 0x9e | 0x9f | 0xa0 | 0xa1 | 0xa2 | 0xa3 | 0xa4 => .numeric2
  | 0xa5 => .within                                    -- OP_WITHIN
  -- OP_RIPEMD160, OP_SHA1, OP_SHA256, OP_HASH160, OP_HASH256
  | 0xa6 | 0xa7 | 0xa8 | 0xa9 | 0xaa => .hash
  | 0xab => .codeSeparator                             -- OP_CODESEPARATOR
  | 0xac | 0xad => .checkSig                           -- OP_CHECKSIG, OP_CHECKSIGVERIFY
  | 0xba => .checkSigAdd                               -- OP_CHECKSIGADD
  | 0xae | 0xaf => .checkMultiSig                      -- OP_CHECKMULTISIG, OP_CHECKMULTISIGVERIFY
  | _ => .bad

/-- `OP_CAT`, `OP_SUBSTR`, `OP_LEFT`, `OP_RIGHT`, `OP_INVERT`, `OP_AND`, `OP_OR`, `OP_XOR`,
`OP_2MUL`, `OP_2DIV`, `OP_MUL`, `OP_DIV`, `OP_MOD`, `OP_LSHIFT`, `OP_RSHIFT` (CVE-2010-5137). -/
def isDisabled (opcode : UInt8) : Bool :=
  opcode == 0x7e || opcode == 0x7f || opcode == 0x80 || opcode == 0x81 || opcode == 0x83 ||
    opcode == 0x84 || opcode == 0x85 || opcode == 0x86 || opcode == 0x8d || opcode == 0x8e ||
    opcode == 0x95 || opcode == 0x96 || opcode == 0x97 || opcode == 0x98 || opcode == 0x99

/-- The first byte of a push's data: past the opcode and the size of `OP_PUSHDATA1/2/4`. -/
def pushDataStart (opcode : UInt8) (pc : Nat) : Nat :=
  if opcode < OP_PUSHDATA1 then pc + 1
  else if opcode == OP_PUSHDATA1 then pc + 2
  else if opcode == OP_PUSHDATA2 then pc + 3
  else pc + 5

/-- `CScript::GetOp(pc, opcodeRet, vchRet)`: where the iterator ends, the opcode and the data of a
push; `none` for `false`. -/
def getOp (script : Bytes) (pc : Nat) : Option (Nat × UInt8 × Bytes) :=
  let r := getScriptOp script pc
  if r.ok then
    some (r.pc, r.opcode, if r.opcode ≤ OP_PUSHDATA4 then slice script (pushDataStart r.opcode pc) r.pc else [])
  else none

/-- `CheckMinimalPush(data, opcode)`. -/
def checkMinimalPush (data : Bytes) (opcode : UInt8) : Except Exit Bool :=
  if opcode ≤ OP_PUSHDATA4 then
    if data.length = 0 then pure (opcode == OP_0)
    -- Should have used OP_1 .. OP_16.
    else if data.length = 1 ∧ 1 ≤ data.getD 0 0 ∧ data.getD 0 0 ≤ 16 then pure false
    -- Should have used OP_1NEGATE.
    else if data.length = 1 ∧ data.getD 0 0 = 0x81 then pure false
    else if data.length ≤ 75 then pure (opcode.toNat == data.length)
    else if data.length ≤ 255 then pure (opcode == OP_PUSHDATA1)
    else if data.length ≤ 65535 then pure (opcode == OP_PUSHDATA2)
    else pure true
  else throw (.abort "Assertion `0 <= opcode && opcode <= OP_PUSHDATA4' failed.")

/-- `CScript() << b`: the shortest push opcode for the length, the length, and the data. -/
def pushData (b : Bytes) : Bytes :=
  (if b.length < OP_PUSHDATA1.toNat then [b.length.toUInt8]
   else if b.length ≤ 0xff then [OP_PUSHDATA1, b.length.toUInt8]
   else if b.length ≤ 0xffff then OP_PUSHDATA2 :: encodeLE 2 b.length
   else OP_PUSHDATA4 :: encodeLE 4 b.length) ++ b

/-! ### Signature and key encodings -/

/-- `CastToBool`: any non-zero byte, but a sign bit alone on the last byte is negative zero. -/
def castToBool (vch : Bytes) : Bool :=
  match vch.findIdx? (· != 0) with
  | some i => !(i = vch.length - 1 ∧ vch.getD i 0 = 0x80)
  | none => false

def isCompressedOrUncompressedPubKey (vchPubKey : Bytes) : Bool :=
  if vchPubKey.length < 33 then false
  else if vchPubKey.getD 0 0 == 0x04 then vchPubKey.length == 65
  else if vchPubKey.getD 0 0 == 0x02 || vchPubKey.getD 0 0 == 0x03 then vchPubKey.length == 33
  else false

def isCompressedPubKey (vchPubKey : Bytes) : Bool :=
  vchPubKey.length == 33 && (vchPubKey.getD 0 0 == 0x02 || vchPubKey.getD 0 0 == 0x03)

/-- `IsValidSignatureEncoding(sig, haveHashType)`: strict DER,
`0x30 [total-length] 0x02 [R-length] [R] 0x02 [S-length] [S] [sighash]`. -/
def isValidSignatureEncoding (sig : Bytes) (haveHashType : Bool := true) : Bool :=
  let lenR := (sig.getD 3 0).toNat
  let lenS := (sig.getD (5 + lenR) 0).toNat
  if sig.length < 9 ∨ sig.length > 73 then false
  else if sig.getD 0 0 != 0x30 then false
  else if (sig.getD 1 0).toNat != sig.length - (if haveHashType then 3 else 2) then false
  else if 5 + lenR ≥ sig.length then false
  else if lenR + lenS + (if haveHashType then 7 else 6) != sig.length then false
  else if sig.getD 2 0 != 0x02 then false
  else if lenR == 0 then false
  else if sig.getD 4 0 &&& 0x80 != 0 then false
  else if lenR > 1 && sig.getD 4 0 == 0 && sig.getD 5 0 &&& 0x80 == 0 then false
  else if sig.getD (lenR + 4) 0 != 0x02 then false
  else if lenS == 0 then false
  else if sig.getD (lenR + 6) 0 &&& 0x80 != 0 then false
  else if lenS > 1 && sig.getD (lenR + 6) 0 == 0 && sig.getD (lenR + 7) 0 &&& 0x80 == 0 then false
  else true

def isDefinedHashtypeSignature (vchSig : Bytes) : Bool :=
  if vchSig.length = 0 then false
  else
    -- `vchSig.back() & ~SIGHASH_ANYONECANPAY`
    let nHashType := vchSig.getLastD 0 &&& 0x7f
    !(nHashType.toNat < 1 || nHashType.toNat > 3)

/-- Functions `EvalScript` calls that this model takes as given. -/
structure Oracles where
  ripemd160 : Bytes → Bytes
  sha1 : Bytes → Bytes
  sha256 : Bytes → Bytes
  /-- `CPubKey::CheckLowS` of a DER signature. -/
  checkLowS : Bytes → Bool

/-- `IsLowDERSignature(vchSig, serror, haveHashType)`: `CPubKey::CheckLowS` of the signature
without its hash type byte. -/
def isLowDERSignature (orc : Oracles) (vchSig : Bytes) (haveHashType : Bool) : Except Exit Unit :=
  if !isValidSignatureEncoding vchSig haveHashType then throw (.fail .SCRIPT_ERR_SIG_DER)
  else if !orc.checkLowS (vchSig.take (vchSig.length - if haveHashType then 1 else 0)) then
    throw (.fail .SCRIPT_ERR_SIG_HIGH_S)
  else pure ()

/-- `CheckSignatureEncoding(vchSig, flags, serror)`. -/
def checkSignatureEncoding (orc : Oracles) (vchSig : Bytes) (flags : UInt32) : Except Exit Unit :=
  if vchSig.length = 0 then pure ()
  else if (hasFlag flags SCRIPT_VERIFY_DERSIG || hasFlag flags SCRIPT_VERIFY_LOW_S ||
      hasFlag flags SCRIPT_VERIFY_STRICTENC) && !isValidSignatureEncoding vchSig then
    throw (.fail .SCRIPT_ERR_SIG_DER)
  else do
    -- a low signature goes on to the hash type test of the next `else if`
    if hasFlag flags SCRIPT_VERIFY_LOW_S then isLowDERSignature orc vchSig true
    if hasFlag flags SCRIPT_VERIFY_STRICTENC && !isDefinedHashtypeSignature vchSig then
      throw (.fail .SCRIPT_ERR_SIG_HASHTYPE)

def checkPubKeyEncoding (vchPubKey : Bytes) (flags : UInt32) (sigversion : SigVersion) : Except Exit Unit :=
  if hasFlag flags SCRIPT_VERIFY_STRICTENC && !isCompressedOrUncompressedPubKey vchPubKey then
    throw (.fail .SCRIPT_ERR_PUBKEYTYPE)
  -- Only compressed keys are accepted in segwit
  else if hasFlag flags SCRIPT_VERIFY_WITNESS_PUBKEYTYPE && sigversion == .WITNESS_V0 &&
      !isCompressedPubKey vchPubKey then
    throw (.fail .SCRIPT_ERR_WITNESS_PUBKEYTYPE)
  else pure ()

/-! ### The state of a run -/

/-- `ScriptExecutionData`: the part the Taproot digest reads, and the validation weight budget of
Tapscript. -/
structure ScriptExecutionData extends Sighash.ScriptExecutionData where
  m_validation_weight_left_init : Bool := false
  m_validation_weight_left : Int64 := 0

/-- `BaseSignatureChecker`, a virtual interface. `CheckSchnorrSignature` returns `false` with the
error it leaves in `serror`. -/
structure BaseSignatureChecker where
  CheckECDSASignature : Bytes → Bytes → Bytes → SigVersion → Bool
  CheckSchnorrSignature : Bytes → Bytes → SigVersion → ScriptExecutionData → Except ScriptError Unit
  CheckLockTime : CScriptNum → Bool
  CheckSequence : CScriptNum → Bool

/-- What `EvalScript` calls of `vfExec`; `pop_back` and `toggle_top` may fail an `assert`. -/
structure CondStack (σ : Type) where
  init : σ
  empty : σ → Bool
  all_true : σ → Bool
  push_back : σ → Bool → σ
  pop_back : σ → Except Exit σ
  toggle_top : σ → Except Exit σ

/-- `ConditionStack`, the condition stack of the source. -/
def conditionStack : CondStack ConditionStack where
  init := {}
  empty := ConditionStack.empty
  all_true := ConditionStack.all_true
  push_back := ConditionStack.push_back
  pop_back s := match s.pop_back with
    | some s => pure s
    | none => throw (.abort "Assertion `m_stack_size > 0' failed.")
  toggle_top s := match s.toggle_top with
    | some s => pure s
    | none => throw (.abort "Assertion `m_stack_size > 0' failed.")

/-- `std::vector<bool>`, the condition stack `ConditionStack` replaced: `fExec` is
`!count(vfExec.begin(), vfExec.end(), false)` and `OP_ELSE` negates `vfExec.back()`. Both are
undefined on an empty vector, which `EvalScript` tests for first. -/
def vectorStack : CondStack (List Bool) where
  init := []
  empty v := v.isEmpty
  all_true v := !v.contains false
  push_back v f := vectorStep v (.push_back f)
  pop_back v := if v.isEmpty then throw (.abort "pop_back() on an empty vector") else pure (vectorStep v .pop_back)
  toggle_top v := if v.isEmpty then throw (.abort "back() on an empty vector") else pure (vectorStep v .toggle_top)

/-- The variables of the loop of `EvalScript` other than `vfExec`: the two stacks, the iterator
`pc`, `pbegincodehash`, the opcode count and position, and `execdata`. -/
structure Machine where
  stack : List Bytes
  altstack : List Bytes
  pc : Nat
  pbegincodehash : Nat
  nOpCount : Nat
  opcode_pos : UInt32
  execdata : ScriptExecutionData

/-! ### Stack access -/

/-- `stacktop(-i)`, that is `stack.at(stack.size() - i)`, which throws `std::out_of_range` when
`i` is zero or above the size. -/
def stacktop (stack : List Bytes) (i : Nat) : Except Exit Bytes :=
  if 0 < i ∧ i ≤ stack.length then pure (stack.getD (stack.length - i) []) else throw (.throw OUT_OF_RANGE)

/-- `popstack(stack)`. -/
def popstack (stack : List Bytes) : Except Exit (List Bytes) :=
  if stack.isEmpty then throw (.throw POPSTACK_EMPTY) else pure stack.dropLast

/-- `swap(stacktop(-i), stacktop(-j))`. -/
def swapTop (stack : List Bytes) (i j : Nat) : Except Exit (List Bytes) := do
  let a ← stacktop stack i
  let b ← stacktop stack j
  pure ((stack.set (stack.length - i) b).set (stack.length - j) a)

/-- The `CScriptNum(vch, fRequireMinimal, nMaxNumSize)` constructor, throwing `scriptnum_error`. -/
def scriptNum (vch : Bytes) (fRequireMinimal : Bool) (nMaxNumSize : Nat := nDefaultMaxNumSize) :
    Except Exit CScriptNum :=
  match CScriptNum.ofVch vch fRequireMinimal nMaxNumSize with
  | .ok bn => pure bn
  | .error what => throw (.throw what)

/-- `CScriptNum::getint()`: the value clamped to the range of `int`. -/
def getint (bn : CScriptNum) : Int :=
  max (-2 ^ 31) (min (2 ^ 31 - 1) bn.m_value.toInt)

/-- `CScriptNum::getvch()`. -/
def getvch (bn : CScriptNum) : Bytes := ScriptNum.serialize bn.m_value

def vchTrue : Bytes := [1]
def vchFalse : Bytes := []

def INT64_MIN : Int64 := -0x8000000000000000
def INT64_MAX : Int64 := 0x7fffffffffffffff

/-- `bn += rhs` on a `CScriptNum`, with its overflow `assert`. -/
def addAssign (bn : CScriptNum) (rhs : Int64) : Except Exit CScriptNum :=
  if rhs == 0 || (rhs > 0 && bn.m_value ≤ INT64_MAX - rhs) || (rhs < 0 && bn.m_value ≥ INT64_MIN - rhs) then
    pure ⟨bn.m_value + rhs⟩
  else throw (.abort "Assertion on `CScriptNum::operator+=' failed.")

/-- `bn -= rhs` on a `CScriptNum`, with its overflow `assert`. -/
def subAssign (bn : CScriptNum) (rhs : Int64) : Except Exit CScriptNum :=
  if rhs == 0 || (rhs > 0 && bn.m_value ≥ INT64_MIN + rhs) || (rhs < 0 && bn.m_value ≤ INT64_MAX + rhs) then
    pure ⟨bn.m_value - rhs⟩
  else throw (.abort "Assertion on `CScriptNum::operator-=' failed.")

/-- The unary `-` of `CScriptNum`. -/
def negate (bn : CScriptNum) : Except Exit CScriptNum :=
  if bn.m_value != INT64_MIN then pure ⟨-bn.m_value⟩
  else throw (.abort "Assertion `m_value != std::numeric_limits<int64_t>::min()' failed.")

/-- A C++ `bool` stored into a `CScriptNum`. -/
def ofBool (b : Bool) : CScriptNum := ⟨if b then 1 else 0⟩

section Eval
variable {σ : Type} (cs : CondStack σ) (orc : Oracles) (checker : BaseSignatureChecker)
  (script : Bytes) (flags : UInt32) (sigversion : SigVersion)

/-! ### Signature checks -/

/-- `EvalChecksigPreTapscript`: whether the signature is valid, or how the script fails. The
script code runs from the last executed `OP_CODESEPARATOR`; in pre-segwit scripts the signature
is first deleted from it. -/
def evalChecksigPreTapscript (vchSig vchPubKey : Bytes) (pbegincodehash : Nat) : Except Exit Bool := do
  if !(sigversion == .BASE || sigversion == .WITNESS_V0) then
    throw (.abort "Assertion `sigversion == SigVersion::BASE || sigversion == SigVersion::WITNESS_V0' failed.")
  let scriptCode := slice script pbegincodehash script.length
  -- Drop the signature in pre-segwit scripts but not segwit scripts
  let scriptCode ← if sigversion == .BASE then
      let (found, scriptCode) := findAndDelete scriptCode (pushData vchSig)
      if found > 0 && hasFlag flags SCRIPT_VERIFY_CONST_SCRIPTCODE then throw (.fail .SCRIPT_ERR_SIG_FINDANDDELETE)
      else pure scriptCode
    else pure scriptCode
  checkSignatureEncoding orc vchSig flags
  checkPubKeyEncoding vchPubKey flags sigversion
  let fSuccess := checker.CheckECDSASignature vchSig vchPubKey scriptCode sigversion
  if !fSuccess && hasFlag flags SCRIPT_VERIFY_NULLFAIL && vchSig.length != 0 then
    throw (.fail .SCRIPT_ERR_SIG_NULLFAIL)
  pure fSuccess

/-- `EvalChecksigTapscript`: whether the signature is valid, and the budget after it, or how the
script fails. A non-empty signature costs `VALIDATION_WEIGHT_PER_SIGOP_PASSED` of the budget. -/
def evalChecksigTapscript (sig pubkey : Bytes) (execdata : ScriptExecutionData) :
    Except Exit (Bool × ScriptExecutionData) := do
  if sigversion != .TAPSCRIPT then throw (.abort "Assertion `sigversion == SigVersion::TAPSCRIPT' failed.")
  let success := !sig.isEmpty
  let execdata ← if success then
      if !execdata.m_validation_weight_left_init then
        throw (.abort "Assertion `execdata.m_validation_weight_left_init' failed.")
      else
        let execdata := { execdata with
          m_validation_weight_left := execdata.m_validation_weight_left - VALIDATION_WEIGHT_PER_SIGOP_PASSED }
        if execdata.m_validation_weight_left < 0 then throw (.fail .SCRIPT_ERR_TAPSCRIPT_VALIDATION_WEIGHT)
        else pure execdata
    else pure execdata
  if pubkey.length = 0 then throw (.fail .SCRIPT_ERR_PUBKEYTYPE)
  else if pubkey.length = 32 then
    -- a failed check leaves its error in `serror`
    if success then (checker.CheckSchnorrSignature sig pubkey sigversion execdata).mapError .fail
  -- New public key version softforks should be defined before this `else` block.
  else if hasFlag flags SCRIPT_VERIFY_DISCOURAGE_UPGRADABLE_PUBKEYTYPE then
    throw (.fail .SCRIPT_ERR_DISCOURAGE_UPGRADABLE_PUBKEYTYPE)
  pure (success, execdata)

/-- `EvalChecksig`, for `OP_CHECKSIG`, `OP_CHECKSIGVERIFY` and `OP_CHECKSIGADD`. -/
def evalChecksig (sig pubkey : Bytes) (pbegincodehash : Nat) (execdata : ScriptExecutionData) :
    Except Exit (Bool × ScriptExecutionData) :=
  match sigversion with
  | .BASE | .WITNESS_V0 => do
    let success ← evalChecksigPreTapscript orc checker script flags sigversion sig pubkey pbegincodehash
    pure (success, execdata)
  | .TAPSCRIPT => evalChecksigTapscript checker flags sigversion sig pubkey execdata
  -- Key path spending in Taproot has no script, so this is unreachable.
  | .TAPROOT => throw (.abort "Assertion `false' failed.")

/-! ### `OP_CHECKMULTISIG` -/

/-- The signature loop of `OP_CHECKMULTISIG`, entered with `nSigsCount ≤ nKeysCount`: each round
matches the signature at `isig` against the key at `ikey`, and the loop ends with `fSuccess`
once every signature has matched, or false once more signatures are left than keys. -/
def multisigLoop (stack : List Bytes) (scriptCode : Bytes) :
    (nKeysCount isig ikey nSigsCount : Nat) → Except Exit Bool
  | _, _, _, 0 => pure true
  | 0, _, _, _ + 1 => pure false
  | nKeysCount + 1, isig, ikey, nSigsCount + 1 => do
    let vchSig ← stacktop stack isig
    let vchPubKey ← stacktop stack ikey
    checkSignatureEncoding orc vchSig flags
    checkPubKeyEncoding vchPubKey flags sigversion
    let fOk := checker.CheckECDSASignature vchSig vchPubKey scriptCode sigversion
    let isig := if fOk then isig + 1 else isig
    let nSigsCount := if fOk then nSigsCount else nSigsCount + 1
    -- If there are more signatures left than keys left, then too many signatures have failed.
    if nSigsCount > nKeysCount then pure false
    else multisigLoop stack scriptCode nKeysCount isig (ikey + 1) nSigsCount

/-- The clean-up loop `while (i-- > 1)`, popping `n` elements; below the last `ikey2` of them lie
the signatures, which must be empty when the operation failed under `NULLFAIL`. -/
def multisigCleanup (fSuccess : Bool) : (n ikey2 : Nat) → List Bytes → Except Exit (List Bytes)
  | 0, _, stack => pure stack
  | n + 1, ikey2, stack => do
    if !fSuccess && hasFlag flags SCRIPT_VERIFY_NULLFAIL && ikey2 == 0 then
      if (← stacktop stack 1).length != 0 then throw (.fail .SCRIPT_ERR_SIG_NULLFAIL)
    let stack ← popstack stack
    -- `if (ikey2 > 0) ikey2--`
    multisigCleanup fSuccess n (ikey2 - 1) stack

/-- `OP_CHECKMULTISIG` and `OP_CHECKMULTISIGVERIFY`:
`([sig ...] num_of_signatures [pubkey ...] num_of_pubkeys -- bool)`. -/
def opCheckMultiSig (opcode : UInt8) (m : Machine) : Except Exit Machine := do
  let fRequireMinimal := hasFlag flags SCRIPT_VERIFY_MINIMALDATA
  if sigversion == .TAPSCRIPT then throw (.fail .SCRIPT_ERR_TAPSCRIPT_CHECKMULTISIG)
  let stack := m.stack
  if stack.length < 1 then throw (.fail .SCRIPT_ERR_INVALID_STACK_OPERATION)
  let nKeysCount := getint (← scriptNum (← stacktop stack 1) fRequireMinimal)
  if nKeysCount < 0 ∨ nKeysCount > MAX_PUBKEYS_PER_MULTISIG then throw (.fail .SCRIPT_ERR_PUBKEY_COUNT)
  let nKeysCount := nKeysCount.toNat
  let nOpCount := m.nOpCount + nKeysCount
  if nOpCount > MAX_OPS_PER_SCRIPT then throw (.fail .SCRIPT_ERR_OP_COUNT)
  let ikey := 2
  -- the position of the last non-signature item in the stack, the top being 1
  let ikey2 := nKeysCount + 2
  let i := 2 + nKeysCount
  if stack.length < i then throw (.fail .SCRIPT_ERR_INVALID_STACK_OPERATION)
  let nSigsCount := getint (← scriptNum (← stacktop stack i) fRequireMinimal)
  if nSigsCount < 0 ∨ nSigsCount > nKeysCount then throw (.fail .SCRIPT_ERR_SIG_COUNT)
  let nSigsCount := nSigsCount.toNat
  let isig := i + 1
  let i := i + 1 + nSigsCount
  if stack.length < i then throw (.fail .SCRIPT_ERR_INVALID_STACK_OPERATION)
  -- Subset of script starting at the most recent codeseparator
  let scriptCode := slice script m.pbegincodehash script.length
  -- Drop the signatures in pre-segwit scripts but not segwit scripts
  let scriptCode ← (List.range nSigsCount).foldlM (fun scriptCode k => do
      let vchSig ← stacktop stack (isig + k)
      if sigversion == .BASE then
        let (found, scriptCode) := findAndDelete scriptCode (pushData vchSig)
        if found > 0 && hasFlag flags SCRIPT_VERIFY_CONST_SCRIPTCODE then throw (.fail .SCRIPT_ERR_SIG_FINDANDDELETE)
        else pure scriptCode
      else pure scriptCode) scriptCode
  let fSuccess ← multisigLoop orc checker flags sigversion stack scriptCode nKeysCount isig ikey nSigsCount
  -- Clean up stack of actual arguments
  let stack ← multisigCleanup flags fSuccess (i - 1) ikey2 stack
  -- A bug causes CHECKMULTISIG to consume one extra argument whose contents were not checked.
  if stack.length < 1 then throw (.fail .SCRIPT_ERR_INVALID_STACK_OPERATION)
  if hasFlag flags SCRIPT_VERIFY_NULLDUMMY && (← stacktop stack 1).length != 0 then
    throw (.fail .SCRIPT_ERR_SIG_NULLDUMMY)
  let stack ← popstack stack
  let stack := stack ++ [if fSuccess then vchTrue else vchFalse]
  let stack ← if opcode == OP_CHECKMULTISIGVERIFY then
      if fSuccess then popstack stack else throw (.fail .SCRIPT_ERR_CHECKMULTISIGVERIFY)
    else pure stack
  pure { m with stack, nOpCount }

/-! ### The case blocks -/

/-- `if (stack.size() < n) return set_error(serror, SCRIPT_ERR_INVALID_STACK_OPERATION)`. -/
def requireDepth (stack : List Bytes) (n : Nat) : Except Exit Unit :=
  if stack.length < n then throw (.fail .SCRIPT_ERR_INVALID_STACK_OPERATION) else pure ()

/-- The numeric operation of `OP_1ADD` ... `OP_0NOTEQUAL` on `bn`. -/
def numeric1Op (opcode : UInt8) (bn : CScriptNum) : Except Exit CScriptNum :=
  if opcode == OP_1ADD then addAssign bn 1
  else if opcode == OP_1SUB then subAssign bn 1
  else if opcode == OP_NEGATE then negate bn
  else if opcode == OP_ABS then (if bn.m_value < 0 then negate bn else pure bn)
  else if opcode == OP_NOT then pure (ofBool (bn.m_value == 0))
  else if opcode == OP_0NOTEQUAL then pure (ofBool (bn.m_value != 0))
  else throw (.abort "Assertion `!\"invalid opcode\"' failed.")

/-- The numeric operation of `OP_ADD` ... `OP_MAX` on `bn1` and `bn2`. `bn1 + bn2` has no
overflow check; the operands have at most four bytes. -/
def numeric2Op (opcode : UInt8) (bn1 bn2 : CScriptNum) : Except Exit CScriptNum :=
  if opcode == OP_ADD then pure ⟨bn1.m_value + bn2.m_value⟩
  else if opcode == OP_SUB then pure ⟨bn1.m_value - bn2.m_value⟩
  else if opcode == OP_BOOLAND then pure (ofBool (bn1.m_value != 0 && bn2.m_value != 0))
  else if opcode == OP_BOOLOR then pure (ofBool (bn1.m_value != 0 || bn2.m_value != 0))
  else if opcode == OP_NUMEQUAL then pure (ofBool (bn1.m_value == bn2.m_value))
  else if opcode == OP_NUMEQUALVERIFY then pure (ofBool (bn1.m_value == bn2.m_value))
  else if opcode == OP_NUMNOTEQUAL then pure (ofBool (bn1.m_value != bn2.m_value))
  else if opcode == OP_LESSTHAN then pure (ofBool (bn1.m_value < bn2.m_value))
  else if opcode == OP_GREATERTHAN then pure (ofBool (bn1.m_value > bn2.m_value))
  else if opcode == OP_LESSTHANOREQUAL then pure (ofBool (bn1.m_value ≤ bn2.m_value))
  else if opcode == OP_GREATERTHANOREQUAL then pure (ofBool (bn1.m_value ≥ bn2.m_value))
  else if opcode == OP_MIN then pure (if bn1.m_value < bn2.m_value then bn1 else bn2)
  else if opcode == OP_MAX then pure (if bn1.m_value > bn2.m_value then bn1 else bn2)
  else throw (.abort "Assertion `!\"invalid opcode\"' failed.")

/-- The hash `OP_RIPEMD160` ... `OP_HASH256` computes; `CHash160` is RIPEMD-160 of SHA-256 and
`CHash256` SHA-256 twice. -/
def hashOp (opcode : UInt8) (vch : Bytes) : Bytes :=
  if opcode == OP_RIPEMD160 then orc.ripemd160 vch
  else if opcode == OP_SHA1 then orc.sha1 vch
  else if opcode == OP_SHA256 then orc.sha256 vch
  else if opcode == OP_HASH160 then orc.ripemd160 (orc.sha256 vch)
  else orc.sha256 (orc.sha256 vch)

/-- A case block other than the three conditionals, on the variables other than `vfExec`. -/
def evalBlock (h : Handler) (opcode : UInt8) (m : Machine) : Except Exit Machine := do
  let fRequireMinimal := hasFlag flags SCRIPT_VERIFY_MINIMALDATA
  let stack := m.stack
  match h with
  | .pushNumber =>
    -- ( -- value)
    pure { m with stack := stack ++ [getvch ⟨Int64.ofInt ((opcode.toNat : Int) - (OP_1.toNat - 1))⟩] }
  | .nop => pure m
  | .checkLockTimeVerify =>
    -- not enabled: treat as a NOP2
    if !hasFlag flags SCRIPT_VERIFY_CHECKLOCKTIMEVERIFY then pure m
    else
      requireDepth stack 1
      -- 5-byte numbers are good until 2**39-1, beyond the 2**32-1 limit of nLockTime
      let nLockTime ← scriptNum (← stacktop stack 1) fRequireMinimal 5
      if nLockTime.m_value < 0 then throw (.fail .SCRIPT_ERR_NEGATIVE_LOCKTIME)
      if !checker.CheckLockTime nLockTime then throw (.fail .SCRIPT_ERR_UNSATISFIED_LOCKTIME)
      pure m
  | .checkSequenceVerify =>
    -- not enabled: treat as a NOP3
    if !hasFlag flags SCRIPT_VERIFY_CHECKSEQUENCEVERIFY then pure m
    else
      requireDepth stack 1
      let nSequence ← scriptNum (← stacktop stack 1) fRequireMinimal 5
      if nSequence.m_value < 0 then throw (.fail .SCRIPT_ERR_NEGATIVE_LOCKTIME)
      -- the disabled lock-time flag makes CHECKSEQUENCEVERIFY a NOP
      if nSequence.m_value &&& SEQUENCE_LOCKTIME_DISABLE_FLAG != 0 then pure m
      else if !checker.CheckSequence nSequence then throw (.fail .SCRIPT_ERR_UNSATISFIED_LOCKTIME)
      else pure m
  | .upgradableNop =>
    if hasFlag flags SCRIPT_VERIFY_DISCOURAGE_UPGRADABLE_NOPS then throw (.fail .SCRIPT_ERR_DISCOURAGE_UPGRADABLE_NOPS)
    else pure m
  | .verify =>
    -- (true -- ) or (false -- false) and return
    requireDepth stack 1
    if castToBool (← stacktop stack 1) then pure { m with stack := ← popstack stack }
    else throw (.fail .SCRIPT_ERR_VERIFY)
  | .return_ => throw (.fail .SCRIPT_ERR_OP_RETURN)
  | .toAltStack =>
    requireDepth stack 1
    let altstack := m.altstack ++ [← stacktop stack 1]
    pure { m with stack := ← popstack stack, altstack }
  | .fromAltStack =>
    if m.altstack.length < 1 then throw (.fail .SCRIPT_ERR_INVALID_ALTSTACK_OPERATION)
    let stack := stack ++ [← stacktop m.altstack 1]
    pure { m with stack, altstack := ← popstack m.altstack }
  | .drop2 =>
    -- (x1 x2 -- )
    requireDepth stack 2
    pure { m with stack := ← popstack (← popstack stack) }
  | .dup2 =>
    -- (x1 x2 -- x1 x2 x1 x2)
    requireDepth stack 2
    let vch1 ← stacktop stack 2
    let vch2 ← stacktop stack 1
    pure { m with stack := stack ++ [vch1, vch2] }
  | .dup3 =>
    -- (x1 x2 x3 -- x1 x2 x3 x1 x2 x3)
    requireDepth stack 3
    let vch1 ← stacktop stack 3
    let vch2 ← stacktop stack 2
    let vch3 ← stacktop stack 1
    pure { m with stack := stack ++ [vch1, vch2, vch3] }
  | .over2 =>
    -- (x1 x2 x3 x4 -- x1 x2 x3 x4 x1 x2)
    requireDepth stack 4
    let vch1 ← stacktop stack 4
    let vch2 ← stacktop stack 3
    pure { m with stack := stack ++ [vch1, vch2] }
  | .rot2 =>
    -- (x1 x2 x3 x4 x5 x6 -- x3 x4 x5 x6 x1 x2)
    requireDepth stack 6
    let vch1 ← stacktop stack 6
    let vch2 ← stacktop stack 5
    -- `stack.erase(stack.end()-6, stack.end()-4)`
    pure { m with stack := stack.take (stack.length - 6) ++ stack.drop (stack.length - 4) ++ [vch1, vch2] }
  | .swap2 =>
    -- (x1 x2 x3 x4 -- x3 x4 x1 x2)
    requireDepth stack 4
    pure { m with stack := ← swapTop (← swapTop stack 4 2) 3 1 }
  | .ifDup =>
    -- (x - 0 | x x)
    requireDepth stack 1
    let vch ← stacktop stack 1
    pure { m with stack := if castToBool vch then stack ++ [vch] else stack }
  | .depth =>
    -- -- stacksize
    pure { m with stack := stack ++ [getvch ⟨Int64.ofNat stack.length⟩] }
  | .drop =>
    -- (x -- )
    requireDepth stack 1
    pure { m with stack := ← popstack stack }
  | .dup =>
    -- (x -- x x)
    requireDepth stack 1
    pure { m with stack := stack ++ [← stacktop stack 1] }
  | .nip =>
    -- (x1 x2 -- x2): `stack.erase(stack.end() - 2)`
    requireDepth stack 2
    pure { m with stack := stack.eraseIdx (stack.length - 2) }
  | .over =>
    -- (x1 x2 -- x1 x2 x1)
    requireDepth stack 2
    pure { m with stack := stack ++ [← stacktop stack 2] }
  | .pickRoll =>
    -- (xn ... x2 x1 x0 n - xn ... x2 x1 x0 xn), and for OP_ROLL without the xn below
    requireDepth stack 2
    let n := getint (← scriptNum (← stacktop stack 1) fRequireMinimal)
    let stack ← popstack stack
    if n < 0 ∨ n ≥ stack.length then throw (.fail .SCRIPT_ERR_INVALID_STACK_OPERATION)
    let vch ← stacktop stack (n.toNat + 1)
    -- `stack.erase(stack.end()-n-1)`
    let stack := if opcode == OP_ROLL then stack.eraseIdx (stack.length - n.toNat - 1) else stack
    pure { m with stack := stack ++ [vch] }
  | .rot =>
    -- (x1 x2 x3 -- x2 x3 x1)
    requireDepth stack 3
    pure { m with stack := ← swapTop (← swapTop stack 3 2) 2 1 }
  | .swap =>
    -- (x1 x2 -- x2 x1)
    requireDepth stack 2
    pure { m with stack := ← swapTop stack 2 1 }
  | .tuck =>
    -- (x1 x2 -- x2 x1 x2): `stack.insert(stack.end()-2, vch)`
    requireDepth stack 2
    let vch ← stacktop stack 1
    pure { m with stack := stack.insertIdx (stack.length - 2) vch }
  | .size =>
    -- (in -- in size)
    requireDepth stack 1
    pure { m with stack := stack ++ [getvch ⟨Int64.ofNat (← stacktop stack 1).length⟩] }
  | .equal =>
    -- (x1 x2 - bool)
    requireDepth stack 2
    let fEqual := (← stacktop stack 2) == (← stacktop stack 1)
    let stack := (← popstack (← popstack stack)) ++ [if fEqual then vchTrue else vchFalse]
    if opcode == OP_EQUALVERIFY then
      if fEqual then pure { m with stack := ← popstack stack } else throw (.fail .SCRIPT_ERR_EQUALVERIFY)
    else pure { m with stack }
  | .numeric1 =>
    -- (in -- out)
    requireDepth stack 1
    let bn ← numeric1Op opcode (← scriptNum (← stacktop stack 1) fRequireMinimal)
    pure { m with stack := (← popstack stack) ++ [getvch bn] }
  | .numeric2 =>
    -- (x1 x2 -- out)
    requireDepth stack 2
    let bn1 ← scriptNum (← stacktop stack 2) fRequireMinimal
    let bn2 ← scriptNum (← stacktop stack 1) fRequireMinimal
    let bn ← numeric2Op opcode bn1 bn2
    let stack := (← popstack (← popstack stack)) ++ [getvch bn]
    if opcode == OP_NUMEQUALVERIFY then
      if castToBool (← stacktop stack 1) then pure { m with stack := ← popstack stack }
      else throw (.fail .SCRIPT_ERR_NUMEQUALVERIFY)
    else pure { m with stack }
  | .within =>
    -- (x min max -- out)
    requireDepth stack 3
    let bn1 ← scriptNum (← stacktop stack 3) fRequireMinimal
    let bn2 ← scriptNum (← stacktop stack 2) fRequireMinimal
    let bn3 ← scriptNum (← stacktop stack 1) fRequireMinimal
    let fValue := bn2.m_value ≤ bn1.m_value && bn1.m_value < bn3.m_value
    let stack ← popstack (← popstack (← popstack stack))
    pure { m with stack := stack ++ [if fValue then vchTrue else vchFalse] }
  | .hash =>
    -- (in -- hash)
    requireDepth stack 1
    let vchHash := hashOp orc opcode (← stacktop stack 1)
    pure { m with stack := (← popstack stack) ++ [vchHash] }
  | .codeSeparator =>
    -- Hash starts after the code separator
    pure { m with pbegincodehash := m.pc, execdata.m_codeseparator_pos := m.opcode_pos }
  | .checkSig =>
    -- (sig pubkey -- bool)
    requireDepth stack 2
    let vchSig ← stacktop stack 2
    let vchPubKey ← stacktop stack 1
    let (fSuccess, execdata) ← evalChecksig orc checker script flags sigversion vchSig vchPubKey m.pbegincodehash m.execdata
    let stack := (← popstack (← popstack stack)) ++ [if fSuccess then vchTrue else vchFalse]
    if opcode == OP_CHECKSIGVERIFY then
      if fSuccess then pure { m with stack := ← popstack stack, execdata }
      else throw (.fail .SCRIPT_ERR_CHECKSIGVERIFY)
    else pure { m with stack, execdata }
  | .checkSigAdd =>
    -- OP_CHECKSIGADD is only available in Tapscript
    if sigversion == .BASE || sigversion == .WITNESS_V0 then throw (.fail .SCRIPT_ERR_BAD_OPCODE)
    -- (sig num pubkey -- num)
    requireDepth stack 3
    let sig ← stacktop stack 3
    let num ← scriptNum (← stacktop stack 2) fRequireMinimal
    let pubkey ← stacktop stack 1
    let (success, execdata) ← evalChecksig orc checker script flags sigversion sig pubkey m.pbegincodehash m.execdata
    let stack ← popstack (← popstack (← popstack stack))
    pure { m with stack := stack ++ [getvch ⟨num.m_value + if success then 1 else 0⟩], execdata }
  | .checkMultiSig => opCheckMultiSig orc checker script flags sigversion opcode m
  -- the conditionals are `evalHandler`'s
  | .ifNotIf | .else_ | .endif | .bad => throw (.fail .SCRIPT_ERR_BAD_OPCODE)

/-- The value `OP_IF` and `OP_NOTIF` push on `vfExec`, with the stack after it: the condition is
read, and popped, only in an executed branch. -/
def ifValue (opcode : UInt8) (fExec : Bool) (stack : List Bytes) : Except Exit (Bool × List Bytes) :=
  if fExec then do
    if stack.length < 1 then throw (.fail .SCRIPT_ERR_UNBALANCED_CONDITIONAL)
    let vch ← stacktop stack 1
    -- Tapscript requires minimal IF/NOTIF inputs as a consensus rule.
    if sigversion == .TAPSCRIPT && (vch.length > 1 || (vch.length == 1 && vch.getD 0 0 != 1)) then
      throw (.fail .SCRIPT_ERR_TAPSCRIPT_MINIMALIF)
    -- Under witness v0 rules it is only a policy rule, enabled through SCRIPT_VERIFY_MINIMALIF.
    if sigversion == .WITNESS_V0 && hasFlag flags SCRIPT_VERIFY_MINIMALIF then
      if vch.length > 1 then throw (.fail .SCRIPT_ERR_MINIMALIF)
      if vch.length == 1 && vch.getD 0 0 != 1 then throw (.fail .SCRIPT_ERR_MINIMALIF)
    let fValue := castToBool vch
    pure (if opcode == OP_NOTIF then !fValue else fValue, ← popstack stack)
  else pure (false, stack)

/-- `OP_IF` and `OP_NOTIF`: `<expression> if [statements] [else [statements]] endif`. -/
def opIf (opcode : UInt8) (fExec : Bool) (m : Machine) (vfExec : σ) : Except Exit (Machine × σ) := do
  let (fValue, stack) ← ifValue flags sigversion opcode fExec m.stack
  pure ({ m with stack }, cs.push_back vfExec fValue)

/-- The block of `handler`, the conditionals on `vfExec` and the others on the rest. -/
def evalHandler (h : Handler) (opcode : UInt8) (fExec : Bool) (m : Machine) (vfExec : σ) :
    Except Exit (Machine × σ) :=
  match h with
  | .ifNotIf => opIf cs flags sigversion opcode fExec m vfExec
  | .else_ =>
    if cs.empty vfExec then throw (.fail .SCRIPT_ERR_UNBALANCED_CONDITIONAL)
    else return (m, ← cs.toggle_top vfExec)
  | .endif =>
    if cs.empty vfExec then throw (.fail .SCRIPT_ERR_UNBALANCED_CONDITIONAL)
    else return (m, ← cs.pop_back vfExec)
  | h => return (← evalBlock orc checker script flags sigversion h opcode m, vfExec)

/-! ### The loop -/

/-- The statements of a round before the `switch`: `GetOp` from `pc`, and the checks on what it
read. The iterator after the opcode, the opcode, its push data and the opcode count. -/
def readInstruction (pc : Nat) (nOpCount : Nat) : Except Exit (Nat × UInt8 × Bytes × Nat) := do
  let some (pc, opcode, vchPushValue) := getOp script pc | throw (.fail .SCRIPT_ERR_BAD_OPCODE)
  if vchPushValue.length > MAX_SCRIPT_ELEMENT_SIZE then throw (.fail .SCRIPT_ERR_PUSH_SIZE)
  -- Note how OP_RESERVED does not count towards the opcode limit.
  let nOpCount := if (sigversion == .BASE || sigversion == .WITNESS_V0) && opcode > OP_16 then nOpCount + 1
    else nOpCount
  if nOpCount > MAX_OPS_PER_SCRIPT then throw (.fail .SCRIPT_ERR_OP_COUNT)
  if isDisabled opcode then throw (.fail .SCRIPT_ERR_DISABLED_OPCODE)
  -- OP_CODESEPARATOR in non-segwit script is rejected even in an unexecuted branch
  if opcode == OP_CODESEPARATOR && sigversion == .BASE && hasFlag flags SCRIPT_VERIFY_CONST_SCRIPTCODE then
    throw (.fail .SCRIPT_ERR_OP_CODESEPARATOR)
  pure (pc, opcode, vchPushValue, nOpCount)

/-- What a round does with the opcode it read: an executed push, a case block, or nothing in a
branch not taken, where only the conditionals run. -/
def execInstruction (fExec : Bool) (opcode : UInt8) (vchPushValue : Bytes) (m : Machine) (vfExec : σ) :
    Except Exit (Machine × σ) :=
  if fExec && opcode ≤ OP_PUSHDATA4 then do
    if hasFlag flags SCRIPT_VERIFY_MINIMALDATA && !(← checkMinimalPush vchPushValue opcode) then
      throw (.fail .SCRIPT_ERR_MINIMALDATA)
    pure ({ m with stack := m.stack ++ [vchPushValue] }, vfExec)
  else if fExec || (OP_IF ≤ opcode && opcode ≤ OP_ENDIF) then
    evalHandler cs orc checker script flags sigversion (handlerOf opcode) opcode fExec m vfExec
  else pure (m, vfExec)

/-- One round of the loop of `EvalScript`, from the iterator `m.pc`. -/
def evalStep (m : Machine) (vfExec : σ) : Except Exit (Machine × σ) := do
  let fExec := cs.all_true vfExec
  let (pc, opcode, vchPushValue, nOpCount) ← readInstruction script flags sigversion m.pc m.nOpCount
  let (m, vfExec) ← execInstruction cs orc checker script flags sigversion fExec opcode vchPushValue
    { m with pc, nOpCount } vfExec
  -- Size limits
  if m.stack.length + m.altstack.length > MAX_STACK_SIZE then throw (.fail .SCRIPT_ERR_STACK_SIZE)
  pure ({ m with opcode_pos := m.opcode_pos + 1 }, vfExec)

/-- `for (; pc < pend; ++opcode_pos)`, for at most `fuel` rounds; every round moves `pc` on, so
`script.size()` rounds reach the end. -/
def evalLoop : Nat → Machine → σ → Except Exit (Machine × σ)
  | 0, m, vfExec => pure (m, vfExec)
  | fuel + 1, m, vfExec =>
    if m.pc < script.length then do
      let (m, vfExec) ← evalStep cs orc checker script flags sigversion m vfExec
      evalLoop fuel m vfExec
    else pure (m, vfExec)

/-- The variables of `EvalScript` before its loop: the caller's stack, an empty alt stack, both
iterators at `script.begin()`, and no code separator seen. -/
def initMachine (stack : List Bytes) (execdata : ScriptExecutionData) : Machine :=
  ⟨stack, [], 0, 0, 0, 0, { execdata with m_codeseparator_pos := 0xFFFFFFFF, m_codeseparator_pos_init := true }⟩

/-- The end of `EvalScript` after its loop: an exception reaching the `catch (...)` is
`SCRIPT_ERR_UNKNOWN_ERROR`, and every `OP_IF` must have met its `OP_ENDIF`. -/
def evalResult (r : Except Exit (Machine × σ)) : Except Exit (List Bytes × ScriptExecutionData) :=
  match r with
  | .error (.throw _) => throw (.fail .SCRIPT_ERR_UNKNOWN_ERROR)
  | .error e => throw e
  | .ok (m, vfExec) =>
    if !cs.empty vfExec then throw (.fail .SCRIPT_ERR_UNBALANCED_CONDITIONAL)
    else pure (m.stack, m.execdata)

/-- `EvalScript(stack, script, flags, checker, sigversion, execdata, serror)`: the stack and
`execdata` it leaves, or how it fails. -/
def evalScript (stack : List Bytes) (execdata : ScriptExecutionData) :
    Except Exit (List Bytes × ScriptExecutionData) := do
  -- sigversion cannot be TAPROOT here, as it admits no script execution.
  if sigversion == .TAPROOT then
    throw (.abort "Assertion `sigversion == SigVersion::BASE || sigversion == SigVersion::WITNESS_V0 || sigversion == SigVersion::TAPSCRIPT' failed.")
  if (sigversion == .BASE || sigversion == .WITNESS_V0) && script.length > MAX_SCRIPT_SIZE then
    throw (.fail .SCRIPT_ERR_SCRIPT_SIZE)
  evalResult cs (evalLoop cs orc checker script flags sigversion script.length (initMachine stack execdata) cs.init)

end Eval

end BlackcoinMore.Interpreter
