import LoreDB.Library.ByteStream

/-! Identifiers, errors, the fixed-size records and the page interface of the storage
layer. The records keep the source's field widths. Page ids are natural numbers: a file
would outgrow its 64-bit offsets long before their counter wraps. -/
namespace LoreDB.Storage
open LoreDB.Library.ByteStream

abbrev PageId := Nat
abbrev NodeId := UInt64
abbrev EdgeId := UInt64

/-- The bytes of a `std::string`. -/
abbrev Bytes := List UInt8

inductive ErrorCode where
  | ok | ioError | corruption | outOfMemory | invalidArgument | notFound | alreadyExists
  deriving DecidableEq, Repr

structure Error where
  code : ErrorCode
  message : String
  deriving DecidableEq, Repr

structure NodeRecord where
  id : NodeId := 0
  labelCount : UInt32 := 0
  propertyCount : UInt32 := 0
  inDegree : UInt32 := 0
  outDegree : UInt32 := 0
  propertyOffset : UInt64 := 0
  inEdgesOffset : UInt64 := 0
  outEdgesOffset : UInt64 := 0
  deriving DecidableEq, Repr

structure EdgeRecord where
  id : EdgeId := 0
  fromNode : NodeId := 0
  toNode : NodeId := 0
  labelId : UInt32 := 0
  propertyCount : UInt32 := 0
  propertyOffset : UInt64 := 0
  timestamp : UInt64 := 0
  deriving DecidableEq, Repr

def pageSize : Nat := 4096

inductive PageType where
  | free | node | edge | property | index | metadata
  deriving DecidableEq, Repr

def PageType.code : PageType → Nat
  | .free => 0
  | .node => 1
  | .edge => 2
  | .property => 3
  | .index => 4
  | .metadata => 5

structure PageHeader where
  magic : UInt32 := 0x47524148
  version : UInt32 := 1
  pageType : UInt32 := 0
  checksum : UInt32 := 0
  nextFreeOffset : UInt32 := 48
  recordCount : UInt32 := 0
  pageId : UInt64 := 0
  nextPageId : UInt64 := 0
  reserved : UInt64 := 0
  deriving DecidableEq, Repr

/-- The 48 bytes of the header in memory. -/
def PageHeader.bytes (header : PageHeader) : Bytes :=
  littleEndian 4 header.magic.toNat ++ littleEndian 4 header.version.toNat ++
    littleEndian 4 header.pageType.toNat ++ littleEndian 4 header.checksum.toNat ++
    littleEndian 4 header.nextFreeOffset.toNat ++ littleEndian 4 header.recordCount.toNat ++
    littleEndian 8 header.pageId.toNat ++ littleEndian 8 header.nextPageId.toNat ++
    littleEndian 8 header.reserved.toNat

/-- The operations of a page store that the graph store calls, over its states. -/
class PageStore (σ : Type) where
  allocatePage : σ → Except Error PageId × σ
  readPage : PageId → σ → Except Error Bytes × σ
  writePage : PageId → Bytes → σ → Except Error Unit × σ
  sync : σ → Except Error Unit × σ

/-- A page store that hands out pages it has not handed out before, and in which a call
changes what later reads return of no allocated page but the one it writes. -/
class LawfulPageStore (σ : Type) extends PageStore σ where
  allocated : σ → PageId → Prop
  allocate_fresh : ∀ store page, (allocatePage store).1 = .ok page →
    ¬allocated store page ∧ allocated (allocatePage store).2 page
  allocate_keeps : ∀ store page, allocated store page → allocated (allocatePage store).2 page ∧
    (readPage page (allocatePage store).2).1 = (readPage page store).1
  write_keeps : ∀ store target data page, allocated store page →
    allocated (writePage target data store).2 page ∧ (page ≠ target →
      (readPage page (writePage target data store).2).1 = (readPage page store).1)
  read_keeps : ∀ store target page, allocated store page →
    allocated (readPage target store).2 page ∧
      (readPage page (readPage target store).2).1 = (readPage page store).1

end LoreDB.Storage
