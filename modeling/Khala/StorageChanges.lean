/-
The export of storage changes (`get_storage_changes` of
`crates/phala-node-rpc-ext/src/storage_changes.rs`).

The range is checked on the heights of its ends. The walk goes from the last
block to its parents, and stops at the first block of the range or at genesis.

The client and the runtime are parameters, pure functions of a block. The state
of a call is the list of the blocks that were executed.
-/
import Khala.Call

namespace Khala.Rpc

abbrev Bytes : Type := List UInt8

/-! ## Blocks -/

inductive DigestItem
  | seal (data : Bytes)
  | other (data : Bytes)
deriving DecidableEq, Repr

def DigestItem.isSeal : DigestItem → Bool
  | .seal _ => true
  | .other _ => false

structure Header (H : Type) where
  number : ℕ
  parentHash : H
  logs : List DigestItem

structure Block (H : Type) where
  header : Header H
  extrinsics : List Bytes

structure StorageChanges where
  mainStorageChanges : List (Bytes × Option Bytes)
  childStorageChanges : List (Bytes × List (Bytes × Option Bytes))
deriving DecidableEq, Repr

/-- The client, its backend and its runtime. `D` is a state, `O` what a run of the runtime wrote. -/
structure Client (H D O : Type) where
  header : H → Except String (Option (Header H))
  blockBody : H → Except String (Option (List Bytes))
  executeBlock : H → Block H → Except String O
  stateAt : H → Except String D
  pairs : D → List (Bytes × Bytes)
  intoStorageChanges : O → D → H → Except String StorageChanges

inductive Error (H : Type)
  | invalidBlockRange (first last : H × ℕ)
  | resourceLimited (reason : String)
  | invalidBlock (id : H) (reason : String)
deriving DecidableEq, Repr

namespace Client

variable {H D O : Type} (client : Client H D O)

/-! ## The walk -/

def headerOf (id : H) : Call (List H) (Error H) (Header H) := do
  let found ← Call.lift ((client.header id).mapError (.invalidBlock id))
  Call.unwrap found (.invalidBlock id "header not found")

/-- The changes of a block, and the block to go on with, if there is one. -/
def visit (thisBlock : H) : Call (List H) (Error H) (StorageChanges × Option H) := do
  let header ← client.headerOf thisBlock
  let body ← Call.lift ((client.blockBody thisBlock).mapError (.invalidBlock thisBlock))
  let extrinsics ← Call.unwrap body (.invalidBlock thisBlock "block body not found")
  let parentHash := header.parentHash
  if header.number = 0 then
    let state ← Call.lift ((client.stateAt thisBlock).mapError (.invalidBlock parentHash))
    pure (⟨(client.pairs state).map fun (k, v) => (k, some v), []⟩, none)
  else
    -- `Seal`s are added after building the block
    let block : Block H := ⟨{ header with logs := header.logs.filter fun d => !d.isSeal }, extrinsics⟩
    Call.write fun executed => executed ++ [thisBlock]
    let written ← Call.lift ((client.executeBlock parentHash block).mapError (.invalidBlock thisBlock))
    let state ← Call.lift ((client.stateAt parentHash).mapError (.invalidBlock parentHash))
    let storageChanges ←
      Call.lift ((client.intoStorageChanges written state parentHash).mapError (.invalidBlock parentHash))
    pure (storageChanges, some parentHash)

variable [DecidableEq H]

/-- The loop, for a number of rounds: `none` where these do not do. -/
def walk (first : H) : ℕ → H → List StorageChanges → Call (List H) (Error H) (Option (List StorageChanges))
  | 0, _, _ => pure none
  | rounds + 1, thisBlock, changes => do
    let visited ← client.visit thisBlock
    match visited.2 with
    | none => pure (some (changes ++ [visited.1]))
    | some parentHash =>
      if thisBlock = first then pure (some (changes ++ [visited.1]))
      else walk first rounds parentHash (changes ++ [visited.1])

def getStorageChanges (rounds : ℕ) (first last : H) : Call (List H) (Error H) (Option (List StorageChanges)) := do
  let headerFirst ← client.headerOf first
  let headerLast ← client.headerOf last
  Call.ensure (headerFirst.number ≤ headerLast.number)
    (.invalidBlockRange (first, headerFirst.number) (last, headerLast.number))
  let maxNumberOfBlocks := 10000
  Call.ensure (headerLast.number - headerFirst.number ≤ maxNumberOfBlocks)
    (.resourceLimited "Too large number of blocks")
  let changes ← client.walk first rounds last []
  pure (changes.map List.reverse)

end Client

end Khala.Rpc
