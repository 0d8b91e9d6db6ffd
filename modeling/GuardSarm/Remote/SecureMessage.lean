import GuardSarm.Lib.Text

/-! The form of a secure message, as the manager's build of `CreateSecMSG` and `ReadSecMSG` has it:
a token for the cipher, and under the cipher marks of padding and a compressed block with a
checksum, random digits, the two counters and the payload. The ciphers, the compression and
the checksum are given. -/
namespace GuardSarm.Remote

structure Crypto where
  blowfishEncrypt : Text → Text → Text
  blowfishDecrypt : Text → Text → Text
  aesEncrypt : Text → Text → Text
  aesDecrypt : Text → Text → Option Text
  deflate : Text → Text
  inflate : Text → Option Text
  md5 : Text → Text

inductive Method
  | blowfish
  | aes
  deriving DecidableEq

/-- `KS_VALID`, `KS_RIDS`, `KS_CORRUPT`, `KS_ENCKEY`. -/
inductive Verdict
  | valid
  | rids
  | corrupt
  | encKey
  deriving DecidableEq

structure Counters where
  globalCount : Nat
  localCount : Nat
  deriving DecidableEq

/-- The later of two pairs of counters, by the global one first. -/
def Counters.Exceeds (c d : Counters) : Prop :=
  d.globalCount < c.globalCount ∨ c.globalCount = d.globalCount ∧ d.localCount < c.localCount

instance (c d : Counters) : Decidable (c.Exceeds d) :=
  inferInstanceAs (Decidable (_ ∨ _))

def osMaxstr : Nat := 65536

def osHeaderSize : Nat := 128

/-- `MSG_OVERHEAD`. -/
def msgOverhead : Nat := 32 + 5 + 10 + 4 + 2 * 1

namespace Crypto

/-- `os_zlib_compress`, none for 0. -/
def zlibCompress (crypto : Crypto) (src : Text) (dstSize : Nat) : Option Text :=
  if (crypto.deflate src).length ≤ dstSize then some (crypto.deflate src) else none

/-- `os_zlib_uncompress`, none where `uncompress` fails. -/
def zlibUncompress (crypto : Crypto) (src : Text) (dstSize : Nat) : Option Text :=
  (crypto.inflate src).filter fun out => out.length ≤ dstSize

/-- `doEncryptByMethod`. -/
def encrypt (crypto : Crypto) : Method → Text → Text → Text
  | .blowfish => crypto.blowfishEncrypt
  | .aes => crypto.aesEncrypt

/-- The decryption in `ReadSecMSG`, none where it returns `KS_ENCKEY`. -/
def decrypt (crypto : Crypto) (key : Text) : Method → Text → Option Text
  | .blowfish, cipher => some (crypto.blowfishDecrypt key cipher)
  | .aes, cipher => (crypto.aesDecrypt key cipher).filter (· ≠ [])

end Crypto

def Method.token : Method → Text
  | .blowfish => ":".toList
  | .aes => "#AES:".toList

/-- A message once it is decrypted. The old format has a time and a count in place of the counters. -/
inductive Clear
  | compressed (counters : Counters) (payload : Text)
  | old (counters : Counters) (rest : Text)

/-- The method that a buffer names, and what follows. -/
def cryptoToken (buffer : Text) : Method × Text :=
  if "#AES".toList.isPrefixOf buffer then (.aes, buffer.drop 4) else (.blowfish, buffer)

/-- `ReadSecMSG` from the checksum of a decompressed message to its counters. -/
def readCompressed (crypto : Crypto) (message : Text) : Except Verdict Clear :=
  if message.length < msgOverhead then .error .corrupt
  else if message.take 32 ≠ crypto.md5 (message.drop 32) then .error .corrupt
  else
    let fMsg := (message.drop 32).drop 5
    let msgGlobal := atoiUnsigned fMsg
    match fMsg.drop 10 with
    | ':' :: fMsg =>
      let msgLocal := atoiUnsigned fMsg
      match fMsg.drop 4 with
      | ':' :: payload => .ok (.compressed ⟨msgGlobal, msgLocal⟩ payload)
      | _ => .error .corrupt
    | _ => .error .corrupt

/-- The old format. The checksum is taken one byte past the text, and over the text as a string when
the size is below 32. -/
def readOld (crypto : Crypto) (bufferSize : Nat) (cleartext : Text) : Except Verdict Clear :=
  let fMsg := cleartext.drop 32
  let hashed := if bufferSize < 32 then cString fMsg else (fMsg ++ [nul]).take (bufferSize - 32)
  if cleartext.take 32 ≠ crypto.md5 hashed then .error .corrupt
  else .ok (.old ⟨atoiUnsigned fMsg, atoiUnsigned (fMsg.drop 11)⟩ (fMsg.drop 16))

/-- `ReadSecMSG` from the decrypted text to the counters. The buffer for it is zero before; behind the
token of AES the size is larger than the text. -/
def readClear (crypto : Crypto) (bufferSize : Nat) (plaintext : Text) : Except Verdict Clear :=
  match plaintext ++ List.replicate (bufferSize - plaintext.length) nul with
  | '!' :: cleartext =>
    match crypto.zlibUncompress (cleartext.dropWhile (· == '!')) osMaxstr with
    | none => .error .corrupt
    | some message => readCompressed crypto message
  | ':' :: cleartext => readOld crypto bufferSize cleartext
  | _ => .error .encKey

/-- `ReadSecMSG` up to the counters. The size is that of the message without one byte. -/
def decode (crypto : Crypto) (key buffer : Text) : Except Verdict Clear :=
  let (method, rest) := cryptoToken buffer
  match rest with
  | ':' :: cipher =>
    match crypto.decrypt key method cipher with
    | none => .error .encKey
    | some plaintext => readClear crypto (buffer.length - 1) plaintext
  | _ => .error .corrupt

/-- `%05hu%010u:%04u:`. -/
def header (rand : Nat) (counters : Counters) : Text :=
  padded 5 rand ++ padded 10 counters.globalCount ++ ":".toList ++
    padded 4 counters.localCount ++ ":".toList

/-- The text that is hashed: random digits, the counters and the message. -/
def sealedText (rand : Nat) (counters : Counters) (msg : Text) : Text := header rand counters ++ msg

/-- The marks of padding before a compressed block: one, and as many as make the size divisible by 8. -/
def padding (cmpSize : Nat) : Text :=
  List.replicate (1 + if (cmpSize + 1) % 8 = 0 then 0 else 8 - (cmpSize + 1) % 8) '!'

/-- `CreateSecMSG` from the header to the encrypted message without the part before the token; none
where the compression fails. -/
def encode (crypto : Crypto) (method : Method) (key : Text) (rand : Nat) (counters : Counters)
    (msg : Text) : Option Text :=
  let tmpmsg := sealedText rand counters msg
  (crypto.zlibCompress (crypto.md5 tmpmsg ++ tmpmsg) (osMaxstr - 12)).map fun block =>
    method.token ++ crypto.encrypt method key (padding block.length ++ block)

end GuardSarm.Remote
