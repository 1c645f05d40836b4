import Rye.Foundation.LeadingBits
import Rye.Storage.ExtendibleHash.Bucket

/-!
# Operations of the extendible hash

A directory of `2 ^ depth` entries points to bucket pages; an entry may be null.
The first `depth` bits of the pseudo key of a record choose the entry.  A full
bucket is split, which may expand the directory; a bucket that has become small is
merged with its sibling, which may shrink it.

The directory is a function of the entry number, and the bucket pages are numbered
in the order of their allocation.  Shift counts are taken modulo 32 where the source
may shift a word by its whole width, as the processor does.
-/

namespace Rye.Storage.ExtendibleHash

open Foundation LeadingBits

/-- What the operations ask of keys and pages: the pseudo key of a key, how many records fit on a
page, when a page with some records underflows, and when the records of a bucket do not fit to
those of its sibling. -/
structure EhashConfig (K : Type) where
  ehashHash : K -> Nat
  ehashHash_lt : forall key, ehashHash key < 2 ^ 32
  capacity : Nat
  underflows : Nat -> Bool
  siblingFull : Nat -> Nat -> Bool

structure Bucket (K V : Type) where
  localDepth : Nat
  records : Records K V

structure Ehash (K V : Type) where
  depth : Nat
  bucketVpid : Nat -> Option Nat
  localDepthCount : Nat -> Int
  /-- The pages of the bucket file. -/
  pages : List Nat
  bucket : Nat -> Bucket K V
  nextVpid : Nat

section

variable {K V : Type}

def ehashCreate (K V : Type) : Ehash K V where
  depth := 0
  bucketVpid := fun _ => some 0
  localDepthCount := fun depth => if depth = 0 then 1 else 0
  pages := [0]
  bucket := fun _ => { localDepth := 0, records := [] }
  nextVpid := 1

/-- The macro `FIND_OFFSET`. -/
def findOffset (hashKey depth : Nat) : Nat :=
  hashKey / 2 ^ ((32 - depth) % 32) % 2 ^ (depth % 32)

def Ehash.findBucketVpid (s : Ehash K V) (hashKey : Nat) : Option Nat :=
  s.bucketVpid (findOffset hashKey s.depth)

def Ehash.adjustLocalDepth (s : Ehash K V) (depth : Nat) (delta : Int) : Ehash K V :=
  { s with
    localDepthCount :=
      Function.update s.localDepthCount depth (s.localDepthCount depth + delta) }

def Ehash.setBucket (s : Ehash K V) (vpid : Nat) (bucket : Bucket K V) : Ehash K V :=
  { s with bucket := Function.update s.bucket vpid bucket }

def Ehash.allocPage (s : Ehash K V) (bucket : Bucket K V) : Ehash K V :=
  { s with
    pages := s.nextVpid :: s.pages
    bucket := Function.update s.bucket s.nextVpid bucket
    nextVpid := s.nextVpid + 1 }

def Ehash.deallocPage (s : Ehash K V) (vpid : Nat) : Ehash K V :=
  { s with pages := s.pages.erase vpid }

/-- The entries that share the leading bits of the pseudo key are set.  With a difference of 32 the
last entry has the number -1 and none is set. -/
def Ehash.connectBucket (s : Ehash K V) (localDepth hashKey : Nat) (vpid : Option Nat) :
    Ehash K V :=
  let location := findOffset hashKey s.depth
  let diff := s.depth - localDepth
  if 32 <= diff then s
  else
    { s with
      bucketVpid := fun entry =>
        if entry / 2 ^ diff = location / 2 ^ diff then vpid else s.bucketVpid entry }

/-- Every entry is repeated.  A repetition of `1 << 31` times is negative and copies nothing. -/
def Ehash.expandDirectory (s : Ehash K V) (newDepth : Nat) : Ehash K V :=
  let shift := (newDepth - s.depth) % 32
  { s with
    depth := newDepth
    bucketVpid :=
      if shift = 31 then s.bucketVpid else fun entry => s.bucketVpid (entry / 2 ^ shift) }

def Ehash.shrinkDirectory (s : Ehash K V) (newDepth : Nat) : Ehash K V :=
  if s.depth < newDepth then s
  else
    { s with
      depth := newDepth
      bucketVpid := fun entry => s.bucketVpid (entry * 2 ^ (s.depth - newDepth)) }

/-- The downward scan for a local depth that some bucket has; it must not leave the array. -/
def scanLocalDepth (localDepthCount : Nat -> Int) : Nat -> Option Nat
  | 0 => if localDepthCount 0 = 0 then none else some 0
  | i + 1 => if localDepthCount (i + 1) = 0 then scanLocalDepth localDepthCount i else some (i + 1)

def Ehash.shrinkDirectoryIfNeed (s : Ehash K V) : Ehash K V :=
  match scanLocalDepth s.localDepthCount s.depth with
  | none => s
  | some i => if s.depth - i > 1 then s.shrinkDirectory (i + 1) else s

/-- An entry that does not stop the search for the depth of a block. -/
def passes (vpids : List Nat) : Option Nat -> Bool
  | none => true
  | some vpid => vpids.contains vpid

/-- The first entry of the block whose number differs from that of the location's block in the
last bit; the blocks have `2 ^ size` entries. -/
def flippedBase (location size : Nat) : Nat :=
  if location / 2 ^ size % 2 = 1 then (location / 2 ^ size - 1) * 2 ^ size
  else (location / 2 ^ size + 1) * 2 ^ size

/-- Every second entry of the neighbouring block is looked at. -/
def Ehash.sampled (s : Ehash K V) (location : Nat) (vpids : List Nat) (checkDepth : Nat) : Bool :=
  (List.range (2 ^ (checkDepth - 2))).all fun i =>
    passes vpids (s.bucketVpid (flippedBase location (checkDepth - 1) + 2 * i))

/-- The loop over the check depths, with as many steps as there are depths. -/
def Ehash.findDepthFrom (s : Ehash K V) (location : Nat) (vpids : List Nat) : Nat -> Nat -> Nat
  | 0, checkDepth => checkDepth - 1
  | fuel + 1, checkDepth =>
    if checkDepth <= s.depth ∧ s.sampled location vpids checkDepth = true then
      s.findDepthFrom location vpids fuel (checkDepth + 1)
    else checkDepth - 1

def Ehash.findDepth (s : Ehash K V) (location : Nat) (vpids : List Nat) : Nat :=
  s.findDepthFrom location vpids s.depth 2

/-- The walk over the pages and their records; the applied function may end it by an error. -/
def ehashMap {M : Type -> Type} [Monad M] (s : Ehash K V) (applyFunction : K -> V -> M PUnit) :
    M PUnit :=
  forM s.pages fun vpid => forM (s.bucket vpid).records fun r => applyFunction r.1 r.2

end

/-!
## Searching and inserting
-/

section

variable {K V : Type} [LinearOrder K] (config : EhashConfig K)

def ehashSearch (s : Ehash K V) (key : K) : Option V :=
  match s.findBucketVpid (config.ehashHash key) with
  | none => none
  | some vpid => searchBucket (s.bucket vpid).records key

/-- A bucket is created for an entry that is null; the page must have room for the record. -/
def insertAfterCreate (s : Ehash K V) (key : K) (value : V) : Option (Ehash K V) :=
  let hashKey := config.ehashHash key
  let foundDepth := s.findDepth (findOffset hashKey s.depth) []
  let localDepth := s.depth - foundDepth
  match ehashInsertToBucket config.capacity [] key value with
  | none => none
  | some records =>
    let created := s.allocPage { localDepth, records }
    some ((created.connectBucket localDepth hashKey (some s.nextVpid)).adjustLocalDepth
      localDepth 1)

/-- The first position from the given one that passes the test. -/
def firstPosition (test : Nat -> Bool) : Nat -> Nat -> Option Nat
  | 0, _ => none
  | fuel + 1, pos => if test pos = true then some pos else firstPosition test fuel (pos + 1)

/-- The first bit behind the old local depth in which the pseudo keys differ. -/
def findFirstBitPosition (key : K) (bucket : Bucket K V) : Nat :=
  let differs (pos : Nat) : Bool :=
    bucket.records.any fun r =>
      bit 32 pos (config.ehashHash r.1) != bit 32 pos (config.ehashHash key)
  (firstPosition differs (32 - bucket.localDepth) (bucket.localDepth + 1)).getD
    (bucket.localDepth + 1)

/-- The two buckets after the distribution of the records. -/
def splitBucket (s : Ehash K V) (vpid : Nat) (newLocalDepth : Nat) : Ehash K V :=
  let moves (r : K × V) : Bool := bit 32 newLocalDepth (config.ehashHash r.1) == 1
  let records := (s.bucket vpid).records
  (s.setBucket vpid
    { localDepth := newLocalDepth, records := records.filter fun r => !moves r }).allocPage
    { localDepth := newLocalDepth, records := records.filter moves }

def ehashExtendBucket (s : Ehash K V) (vpid : Nat) (key : K) : Ehash K V :=
  let hashKey := config.ehashHash key
  let oldLocalDepth := (s.bucket vpid).localDepth
  let newLocalDepth := findFirstBitPosition config key (s.bucket vpid)
  let split := ((splitBucket config s vpid newLocalDepth).adjustLocalDepth oldLocalDepth
    (-1)).adjustLocalDepth newLocalDepth 2
  let expanded := if newLocalDepth > split.depth then split.expandDirectory newLocalDepth else split
  let connected :=
    if newLocalDepth - oldLocalDepth > 1 then
      (expanded.connectBucket oldLocalDepth hashKey none).connectBucket newLocalDepth
        (clearBit 32 newLocalDepth hashKey) (some vpid)
    else expanded
  connected.connectBucket newLocalDepth (setBit 32 newLocalDepth hashKey) (some s.nextVpid)

/-- The call repeats itself as long as the bucket of the key is full. -/
def ehashInsertHelper : Nat -> Ehash K V -> K -> V -> Option (Ehash K V)
  | 0, _, _, _ => none
  | fuel + 1, s, key, value =>
    match s.findBucketVpid (config.ehashHash key) with
    | none => insertAfterCreate config s key value
    | some vpid =>
      match ehashInsertToBucket config.capacity (s.bucket vpid).records key value with
      | some records => some (s.setBucket vpid { s.bucket vpid with records })
      | none =>
        let newBit :=
          bit 32 (findFirstBitPosition config key (s.bucket vpid)) (config.ehashHash key)
        let extended := ehashExtendBucket config s vpid key
        let target := if newBit = 1 then s.nextVpid else vpid
        match ehashInsertToBucket config.capacity (extended.bucket target).records key
            value with
        | some records => some (extended.setBucket target { extended.bucket target with records })
        | none => ehashInsertHelper fuel extended key value

/-- A local depth is at most 32, so that no call repeats itself more often. -/
def ehashInsert (s : Ehash K V) (key : K) (value : V) : Option (Ehash K V) :=
  ehashInsertHelper config 33 s key value

end

/-!
## Deleting
-/

inductive EhashResult where
  | successfulCompletion (siblingVpid siblingLocation : Nat)
  | fullSiblingBucket
  | noSiblingBucket
deriving DecidableEq, Repr

section

variable {K V : Type} [LinearOrder K] (config : EhashConfig K)

omit [LinearOrder K] in
/-- The location with the last bit of the local depth flipped. -/
def siblingLocation (s : Ehash K V) (location localDepth : Nat) : Nat :=
  let size := s.depth - localDepth
  if location / 2 ^ size % 2 = 0 then location + 2 ^ size else location - 2 ^ size

def ehashCheckMergePossible (s : Ehash K V) (vpid location : Nat) : EhashResult :=
  let localDepth := (s.bucket vpid).localDepth
  if localDepth = 0 then .noSiblingBucket
  else
    let loc := siblingLocation s location localDepth
    match s.bucketVpid loc with
    | none => .noSiblingBucket
    | some siblingVpid =>
      if siblingVpid = vpid then .noSiblingBucket
      else if (s.bucket siblingVpid).localDepth ≠ localDepth then .noSiblingBucket
      else if (s.bucket vpid).records.length ≠ 0 ∧
          config.siblingFull (s.bucket vpid).records.length
            (s.bucket siblingVpid).records.length = true then .fullSiblingBucket
      else .successfulCompletion siblingVpid loc

/-- The records of the bucket are moved into the sibling, which gets the depth of the block that
the two have for themselves.  The pages and counters are brought up to date. -/
def ehashMergePermanent (s : Ehash K V) (vpid siblingVpid location : Nat) : Option (Ehash K V) :=
  let oldLocalDepth := (s.bucket vpid).localDepth
  match moveRecords config.capacity (s.bucket vpid).records (s.bucket siblingVpid).records with
  | none => none
  | some records =>
    let newLocalDepth := s.depth - s.findDepth location [vpid, siblingVpid]
    some ((((s.setBucket siblingVpid { localDepth := newLocalDepth, records }).deallocPage
      vpid).adjustLocalDepth oldLocalDepth (-2)).adjustLocalDepth newLocalDepth 1)

def removeBucket (s : Ehash K V) (vpid hashKey : Nat) : Ehash K V :=
  let oldLocalDepth := (s.bucket vpid).localDepth
  (((s.deallocPage vpid).connectBucket oldLocalDepth hashKey none).adjustLocalDepth oldLocalDepth
    (-1)).shrinkDirectoryIfNeed

def mergeWanted (s : Ehash K V) (vpid : Nat) : Bool :=
  (s.bucket vpid).records.length == 0 || config.underflows (s.bucket vpid).records.length

def ehashMerge (s : Ehash K V) (key : K) : Ehash K V :=
  let hashKey := config.ehashHash key
  let location := findOffset hashKey s.depth
  match s.bucketVpid location with
  | none => s
  | some vpid =>
    if mergeWanted config s vpid = true then
      match ehashCheckMergePossible config s vpid location with
      | .noSiblingBucket =>
        if (s.bucket vpid).records.length = 0 ∧ (s.bucket vpid).localDepth ≠ 0 then
          removeBucket s vpid hashKey
        else s
      | .fullSiblingBucket => s
      | .successfulCompletion siblingVpid loc =>
        match ehashMergePermanent config s vpid siblingVpid loc with
        | none => s
        | some merged =>
          merged.shrinkDirectoryIfNeed.connectBucket (merged.bucket siblingVpid).localDepth
            hashKey (some siblingVpid)
    else s

/-- The deletion fails if the key is not there.  A merge is tried only where the check before it
has found it possible. -/
def ehashDelete (s : Ehash K V) (key : K) : Option (Ehash K V) :=
  let location := findOffset (config.ehashHash key) s.depth
  match s.bucketVpid location with
  | none => none
  | some vpid =>
    match deleteFromBucket (s.bucket vpid).records key with
    | none => none
    | some records =>
      let deleted := s.setBucket vpid { s.bucket vpid with records }
      if mergeWanted config deleted vpid = true then
        match ehashCheckMergePossible config deleted vpid location with
        | .successfulCompletion _ _ => some (ehashMerge config deleted key)
        | _ => some deleted
      else some deleted

end

end Rye.Storage.ExtendibleHash
