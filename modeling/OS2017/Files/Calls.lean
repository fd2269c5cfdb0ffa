/-
**The calls of `sfs.c`.**

The functions FUSE calls, on the disk of `OS2017.Files.Disk`. A path is a C string in a buffer that goes on
behind its terminator: `sfs_create` copies 256 bytes whatever the length. The buffers that `sfs_init`
leaves partly unset are parameters, `Stack`. The times of `struct stat`, the log and the return
value of the filler, which is only logged, are left out.
-/

import OS2017.Files.Disk

namespace OS2017.Files

open OS2017.Bytes

/-! ### Paths -/

/-- The length the kernel bounds a path by, its terminator included. -/
def PATH_MAX : Nat := 4096

/-- **A path**: the bytes from a pointer on, with a terminator at `len`. -/
structure Path where
  bytes : Memory
  len : Nat
  nonzero : ∀ k < len, bytes k ≠ 0
  terminated : bytes len = 0
  bounded : len < PATH_MAX

/-- The string, without its terminator. -/
def Path.text (path : Path) : List (BitVec 8) := (List.range path.len).map path.bytes

/-- `strcmp(path, other) == 0`: the bytes agree up to the terminator of `path`. -/
def strcmp (path : Path) (other : Memory) : Bool :=
  (List.range (path.len + 1)).all fun k => path.bytes k = other k

/-- The string `"/"`. -/
def slash : Memory := fun k => if k = 0 then 47 else 0

/-- The pointer `in.path`. Behind the field it runs on into the rest of the record. -/
def Inode.path (nd : Inode) : Memory := fun k => nd (PATH + k)

/-- The first inode in use with the path. -/
@[irreducible] def inodeOf (d : Drive) (path : Path) : Option Nat :=
  (List.range INODE_LIST_SIZE).find? fun i =>
    isInodeFree d i = 0 ∧ strcmp path (readInode d i).path

/-- An inode with `id = -1`; its other fields are not set and not read. -/
def badresult : Inode := Inode.setId (fun _ => 0) (-1)

/-- `checkiNodePathName`. -/
def checkiNodePathName (d : Drive) (path : Path) : Inode :=
  match inodeOf d path with
  | some i => readInode d i
  | none => badresult

/-! ### `sfs_init` -/

/-- What the stack holds where the buffers of `sfs_init` are not set. -/
structure Stack where
  /-- `buf` of `setFileInit` -/
  fileInit : Memory
  bmbuf : Memory
  root : Inode

/-- `checkIfInit`. -/
def checkIfInit (d : Drive) : Int := if readWord (d.blocks 0) 0 = MAGIC_NUM then 1 else 0

/-- `setFileInit`. -/
def setFileInit (buf : Memory) : StateT Drive Option Unit :=
  block_write 0 (writeWord buf 0 MAGIC_NUM)

/-- `count` bytes `0xFF` from `start` on. -/
def fillOnes (buf : Memory) (start count : Nat) : Memory := fun a =>
  if start ≤ a ∧ a < start + count then 0xFF else buf a

/-- `S_IFDIR`. -/
def S_IFDIR : BitVec 32 := 0x4000

/-- The inode of the root. -/
def rootInode (root : Inode) : Inode :=
  let root := root.setId 0
  let root := root.setPath slash 2
  let root := root.setMode (S_IFDIR ||| 0x1F6)
  let root := root.setSize 0
  root.setHardlinks 2

/-- `sfs_init`. -/
def sfs_init (stack : Stack) : StateT Drive Option Unit := do
  if (← look checkIfInit) = 1 then return ()
  else
    setFileInit stack.fileInit
    let buf ← block_read 0
    block_write 0 (fillOnes buf 4 IMAP_SIZE)
    block_write 1 (fillOnes stack.bmbuf 0 BMAP_SIZE)
    setInode 0 0
    writeInode (rootInode stack.root)

/-! ### Attributes -/

def ENOENT : Int := 2

def EBADF : Int := 9

def EFAULT : Int := 14

/-- The fields of `struct stat` that are set. -/
structure Stat where
  st_mode : BitVec 32
  st_nlink : BitVec 64
  st_size : Int
  st_blocks : Int
  st_ino : BitVec 64

/-- `fillStatBuff`. -/
def fillStatBuff (iNode : Inode) : Stat where
  st_mode := iNode.mode
  st_nlink := BitVec.ofInt 64 iNode.hardlinks
  st_size := iNode.size
  st_blocks := iNode.size.tdiv BLOCK_SIZE + 1
  st_ino := BitVec.ofInt 64 iNode.id

/-- `sfs_getattr`: the return value and the buffer. -/
def sfs_getattr (d : Drive) (path : Path) (statbuf : Stat) : Int × Stat :=
  if strcmp path slash then (0, { statbuf with st_mode := S_IFDIR ||| 0x1FF, st_nlink := 2 })
  else
    let n := checkiNodePathName d path
    if n.id ≠ -1 then (0, fillStatBuff n) else (-ENOENT, statbuf)

/-! ### Files come and go -/

/-- The first free inode. -/
@[irreducible] def freeInode (d : Drive) : Option Nat :=
  (List.range INODE_LIST_SIZE).find? fun i => isInodeFree d i = 1

/-- The inode `sfs_create` fills in, before it gets a block. -/
def newInode (nd : Inode) (i : Nat) (path : Path) (mode : BitVec 32) : Inode :=
  let nd := nd.setId (BitVec.ofNat 16 i)
  let nd := nd.setSize 0
  let nd := nd.setMode mode
  let nd := nd.setHardlinks 1
  nd.setPath path.bytes PATH_BYTES

/-- `sfs_create`: the return value and `fi->fh`. -/
def sfs_create (path : Path) (mode : BitVec 32) (fh : BitVec 64) :
    StateT Drive Option (Int × BitVec 64) := do
  match ← look freeInode with
  | none => return (0, fh)
  | some i =>
    setInode i 0
    let nd ← look (readInode · i)
    let block ← look findNextOpenBlock
    let nd := (newInode nd i path mode).setData 0 block
    if nd.data 0 = -1 then return (-1, fh)
    else
      setBlock (nd.data 0) 0
      writeInode nd
      return (0, BitVec.ofInt 64 nd.id)

/-- The loop of `sfs_unlink`: the blocks of the entries `i`, … are marked free. -/
def releaseBlocks (file : Inode) : List Nat → StateT Drive Option Unit
  | [] => return ()
  | i :: rest => do
    let block ← dataAt file i
    setBlock block 1
    releaseBlocks file rest

/-- `sfs_unlink`. -/
def sfs_unlink (path : Path) : StateT Drive Option Int := do
  let file ← look (checkiNodePathName · path)
  if file.id = -1 then return -1
  else
    let file := file.setHardlinks (file.hardlinks - 2)
    if file.hardlinks < 1 then
      releaseBlocks file (List.range (file.size.tdiv BLOCK_SIZE + 2).toNat)
      setInode file.id 1
      return 0
    else
      setInode file.id 1
      return 0

/-! ### Handles -/

/-- `sfs_open`, where `fcntl(fi->fh, F_GETFL)` returns `flags`: the return value and `fi->fh`. -/
def sfs_open (d : Drive) (path : Path) (flags : Int) (fh : BitVec 64) : Int × BitVec 64 :=
  if flags = -1 then (-1, fh)
  else
    match inodeOf d path with
    | some i => (0, BitVec.ofNat 64 i)
    | none => (-1, fh)

/-- `sfs_release`: the return value and `fi->fh`. -/
def sfs_release (d : Drive) (path : Path) (fh : BitVec 64) : Int × BitVec 64 :=
  if (checkiNodePathName d path).id = -1 then (-1, fh) else (0, -1)

/-! ### Reading -/

/-- The loop of `sfs_read`: `count` bytes from the offset `chr` of `diskbuf`, the block `blk` of the
file, on. -/
def readLoop (file : Inode) : Nat → Nat → Nat → Memory → StateT Drive Option (List (BitVec 8))
  | 0, _, _, _ => return []
  | count + 1, blk, chr, diskbuf => do
    let byte := diskbuf chr
    if (chr + 1) % BLOCK_SIZE = 0 then
      let block ← dataAt file (blk + 1)
      let diskbuf ← block_read (D_BLOCK_START + block)
      let bytes ← readLoop file count (blk + 1) 0 diskbuf
      return byte :: bytes
    else
      let bytes ← readLoop file count blk (chr + 1) diskbuf
      return byte :: bytes

/-- `int blk = offset / BLOCK_SIZE`. -/
def blkOf (offset : Int) : Int := (BitVec.ofInt 32 (offset.tdiv BLOCK_SIZE)).toInt

/-- `int chr = offset % BLOCK_SIZE`. -/
def chrOf (offset : Int) : Int := offset.tmod BLOCK_SIZE

/-- `sfs_read`: the return value and what is put in the buffer. -/
def sfs_read (path : Path) (size : Nat) (offset : Int) :
    StateT Drive Option (Int × List (BitVec 8)) := do
  let file ← look (checkiNodePathName · path)
  if file.id = -1 then return (-EBADF, [])
  else if offset > file.size then return (-EFAULT, [])
  else if size = 0 then return (0, [])
  else
    let block ← dataAt file (blkOf offset)
    let diskbuf ← block_read (D_BLOCK_START + block)
    if chrOf offset < 0 then stop
    else
      let bytes ← readLoop file size (blkOf offset).toNat (chrOf offset).toNat diskbuf
      return (bytes.length, bytes)

/-! ### Writing -/

/-- The `while` of `sfs_write`: the entries behind `blksOwned`, `count` of them, get a block. Nothing
if there is no free block. -/
def fillGap : Nat → Int → Inode → StateT Drive Option (Option Inode)
  | 0, _, file => return some file
  | count + 1, blksOwned, file => do
    let nextBlk ← look findNextOpenBlock
    if nextBlk = -1 then return none
    else
      let file ← setDataAt file (blksOwned + 1) nextBlk
      setBlock nextBlk 0
      fillGap count (blksOwned + 1) file

/-- What the growth of a file by one byte comes to. -/
inductive Growth
  /-- the file goes on -/
  | grown (file : Inode)
  /-- the file has its maximal size -/
  | full (file : Inode)
  /-- there is no free block -/
  | noSpace

/-- The size after a byte was put before the offset `chr` of the block `blk`. -/
def growFile (file : Inode) (blk chr : Nat) : StateT Drive Option Growth := do
  if (chr + blk * BLOCK_SIZE : Nat) > file.size then
    let file := file.setSize (file.size + 1)
    if file.size.tmod BLOCK_SIZE = 0 then
      if file.size = 16777216 then return .full file
      else
        let nbl ← look findNextOpenBlock
        if nbl = -1 then return .noSpace
        else
          let file ← setDataAt file (blk + 1) nbl
          setBlock nbl 0
          return .grown file
    else return .grown file
  else return .grown file

/-- `block_write` of the block `blk` of the file. -/
def flush (file : Inode) (blk : Nat) (diskbuf : Memory) : StateT Drive Option Unit := do
  let block ← dataAt file blk
  block_write (D_BLOCK_START + block) diskbuf

/-- The loop of `sfs_write` and its end. -/
def writeLoop : List (BitVec 8) → Inode → Nat → Nat → Memory → Nat → StateT Drive Option Int
  | [], file, blk, _, diskbuf, bytesWritten => do
    flush file blk diskbuf
    writeInode file
    return bytesWritten
  | byte :: rest, file, blk, chr, diskbuf, bytesWritten => do
    let diskbuf := Function.update diskbuf chr byte
    match ← growFile file blk (chr + 1) with
    | .noSpace => return -1
    | .full file =>
      flush file blk diskbuf
      writeInode file
      return bytesWritten + 1
    | .grown file =>
      if (chr + 1) % BLOCK_SIZE = 0 then
        flush file blk diskbuf
        let block ← dataAt file (blk + 1)
        let diskbuf ← block_read (D_BLOCK_START + block)
        writeLoop rest file (blk + 1) 0 diskbuf (bytesWritten + 1)
      else writeLoop rest file blk (chr + 1) diskbuf (bytesWritten + 1)

/-- `sfs_write`. -/
def sfs_write (path : Path) (buf : List (BitVec 8)) (offset : Int) (fh : BitVec 64) :
    StateT Drive Option Int := do
  let file ← look (checkiNodePathName · path)
  if file.id = -1 then return -EBADF
  else if fh = -1 then return -EBADF
  else if buf = [] then return 0
  else
    let blksOwned := file.size.tdiv BLOCK_SIZE + 1
    match ← fillGap (blkOf offset - blksOwned).toNat blksOwned file with
    | none => return -1
    | some file =>
      let block ← dataAt file (blkOf offset)
      let diskbuf ← block_read (D_BLOCK_START + block)
      if chrOf offset < 0 then stop
      else writeLoop buf file (blkOf offset).toNat (chrOf offset).toNat diskbuf 0

/-! ### The directory -/

/-- The array `filename` of `sfs_readdir`. -/
def filename (nd : Inode) : List (BitVec 8) := (List.range 255).map fun k => nd (PATH + 1 + k)

/-- `sfs_readdir`: the return value and the arrays given to the filler. -/
def sfs_readdir (d : Drive) : Int × List (List (BitVec 8)) :=
  (0, ((List.range' 1 (INODE_LIST_SIZE - 1)).filter fun i => isInodeFree d i = 0).map fun i =>
    filename (readInode d i))

end OS2017.Files
