/-
  `ReceiptFixture` (test/ReceiptFixture.sol): synthetic `encodedTransaction` payloads,
  in the layout the decoder library reads, and the calls that deliver them.

      encodedTransaction = abi.encode(uint8 txType, bytes[] chunks)
      chunks[last] = abi.encode(uint8 status, uint64 gasUsed, LogEntryTuple[] logs, bytes bloom)
      LogEntryTuple = (address address_, bytes32[] topics, bytes data)
-/
import Proofmark.Hub.Runs

namespace Proofmark

open Words

namespace ReceiptFixture

def word (n : ℕ) : Bytes := toBytes 32 n

/-- `bytes`: the length and the data, padded to whole words. -/
def encodeBytes (bs : Bytes) : Bytes :=
  word bs.length ++ bs ++ List.replicate ((32 - bs.length % 32) % 32) 0

/-- A dynamic array: its length, the offset of each element, the elements. -/
def encodeArray (elems : List Bytes) : Bytes :=
  let heads := elems.foldl (fun acc e => (acc.1 ++ word acc.2, acc.2 + e.length))
    (([] : Bytes), 32 * elems.length)
  word elems.length ++ heads.1 ++ elems.flatten

def encodeLog (L : LogEntry) : Bytes :=
  let topics := word L.topics.length ++ abiEncode L.topics
  abiEncode [toWord L.address_] ++ word 96 ++ word (96 + topics.length) ++ topics ++ encodeBytes L.data

def receiptChunk (status : ℕ) (logs : List LogEntry) : Bytes :=
  let encoded := encodeArray (logs.map encodeLog)
  word status ++ word 123456 ++ word 128 ++ word (128 + encoded.length) ++ encoded ++ encodeBytes []

/-- A type-2 transaction carrying a successful receipt. -/
def tx2 (logs : List LogEntry) : Bytes :=
  word 2 ++ word 64 ++ encodeArray ([[], [], receiptChunk 1 logs].map encodeBytes)

/-- A decoder that knows the payloads of `txs`. -/
def decoder (txs : List (List LogEntry)) : EvmV1Decoder where
  getTransactionType bs := if bs.length < 32 then none else toUInt? 8 (BitVec.ofNat 256 (ofBytes (bs.take 32)))
  isValidTransactionType t := decide (t ≤ 4)
  decodeReceiptFields bs := (txs.find? fun logs => tx2 logs == bs).map fun logs => ⟨1, logs⟩

/-- `keccak256` of the 72 bytes that name a transaction of chain 2, for those delivered. -/
def queryKeccak (bs : Bytes) : Bytes32 :=
  (([(0x200000000000000640000000000000000000000000000000000000000000000000000000000000001,
      0xd8779057a30266d4f95cf590ad09888d226838d035ed382952302033ad44f3aa),
    (0x200000000000000650000000000000000000000000000000000000000000000000000000000000000,
      0xd0de3aaf82cac192bcaa91038c713b3b95fced0cfb4e88ae6152938273585964),
    (0x200000000000000660000000000000000000000000000000000000000000000000000000000000003,
      0xb699ed424bd25dea1486b49d508a92be353ee6623d81255315e9ecd1496e66d6)] :
    List (ℕ × Bytes32)).lookup (ofBytes bs)).getD 0

/-- A precompile that verifies the proof and finds the transaction at `txIndex`. -/
def prover (txIndex : U64) : BlockProver := ⟨fun _ _ _ _ _ => true, fun _ => txIndex⟩

def env (txs : List (List LogEntry)) : HubEnv := ⟨queryKeccak, decoder txs⟩

/-- The call that delivers a receipt. -/
def deliver (action : U8) (chainKey : U64) (r : Receipt) : ProofmarkASC.Call :=
  .execute ⟨prover r.txIndex, action, chainKey, r.height, tx2 r.logs, 1, [], 1, []⟩

end ReceiptFixture

end Proofmark
