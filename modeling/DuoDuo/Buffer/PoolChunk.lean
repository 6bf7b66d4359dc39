import DuoDuo.Buffer.PoolSubpage
import DuoDuo.Buffer.SizeClass

/-!
# Chunks

A chunk files its available runs in queues by page class and in a map by their first
and last pages. Runs are split on allocation and collapsed with their neighbours on
release. The page and chunk sizes of a chunk are those of its arena, which passes its
size classes. A step that breaks an assertion has no result.
-/

namespace DuoDuo.Buffer

/-- A pointer to a chunk, of which `m_unpool` never changes. -/
inductive ChunkPtr
  | pooled (id : ℕ)
  | unpooled (id : ℕ)
  deriving DecidableEq, Repr

/-- An address: the chunk for which the array was made, and a position in the array. -/
abbrev Addr := ChunkPtr × ℕ

namespace BestFitQueue

/-- `top`, of a queue that is not empty. -/
def top (q : List ℕ) : Option ℕ := q.min?

/-- `pop`. -/
def pop (q : List ℕ) : List ℕ :=
  match top q with
  | some x => q.erase x
  | none => q

/-- `push`. -/
def push (q : List ℕ) (x : ℕ) : List ℕ := q ++ [x]

/-- `remove`. -/
def remove (q : List ℕ) (x : ℕ) : List ℕ := q.erase x

end BestFitQueue

/-- The lists of chunks of an arena. -/
inductive ChunkListName
  | qInit | q00 | q25 | q50 | q75 | q100
  deriving DecidableEq, Repr

/-- `PoolChunk`, for a chunk that is pooled. -/
structure PoolChunk where
  runsAvailMap : ℤ → Option ℕ
  runsAvail : ℕ → List ℕ
  subpages : ℕ → Option PoolSubpage
  cachedBuffers : List Addr
  offset : ℕ
  freeBytes : ℤ
  parent : Option ChunkListName

namespace PoolChunk

/-- `tailPage`. -/
def tailPage (runOffset pages : ℕ) : ℤ := runOffset + pages - 1

/-- `insertAvailRun0`, which leaves an entry that is there already. -/
def insertAvailRun0 (c : PoolChunk) (runOffset : ℤ) (handle : ℕ) : PoolChunk :=
  match c.runsAvailMap runOffset with
  | some _ => c
  | none => { c with runsAvailMap := Function.update c.runsAvailMap runOffset (some handle) }

/-- A handle is pushed into one of the queues. -/
def pushRun (c : PoolChunk) (queue handle : ℕ) : PoolChunk :=
  { c with
    runsAvail := Function.update c.runsAvail queue (BestFitQueue.push (c.runsAvail queue) handle) }

/-- `insertAvailRun`. -/
def insertAvailRun (sc : SizeClass) (c : PoolChunk) (runOffset pages handle : ℕ) : PoolChunk :=
  let c := c.pushRun (sc.page2pageIdxFloor pages) handle
  let c := c.insertAvailRun0 runOffset handle
  if 1 < pages then c.insertAvailRun0 (tailPage runOffset pages) handle else c

/-- `removeAvailRun`, from a given queue. -/
def removeAvailRunFrom (c : PoolChunk) (queue handle : ℕ) : PoolChunk :=
  let c := { c with
    runsAvail := Function.update c.runsAvail queue
      (BestFitQueue.remove (c.runsAvail queue) handle) }
  let runOffset := calculateRunOffset handle
  let pages := calculateRunPages handle
  let c := { c with runsAvailMap := Function.update c.runsAvailMap runOffset none }
  if 1 < pages then
    { c with runsAvailMap := Function.update c.runsAvailMap (tailPage runOffset pages) none }
  else c

/-- `removeAvailRun`. -/
def removeAvailRun (sc : SizeClass) (c : PoolChunk) (handle : ℕ) : PoolChunk :=
  c.removeAvailRunFrom (sc.page2pageIdxFloor (calculateRunPages handle)) handle

/-- The constructor of a pooled chunk. -/
def new (sc : SizeClass) : PoolChunk :=
  let pages := sc.chunkSize >>> sc.pageShifts
  insertAvailRun sc
    { runsAvailMap := fun _ => none
      runsAvail := fun _ => []
      subpages := fun _ => none
      cachedBuffers := []
      offset := 0
      freeBytes := sc.chunkSize
      parent := none } 0 pages (pages <<< 34)

/-- `usage`. -/
def usage (sc : SizeClass) (c : PoolChunk) : ℤ :=
  if c.freeBytes = 0 then 100
  else
    let freeBytePercentage := (c.freeBytes * 100).tdiv sc.chunkSize
    if freeBytePercentage = 0 then 99 else 100 - freeBytePercentage

/-- `runBestFit`, with `none` for `-1`. -/
def runBestFit (sc : SizeClass) (c : PoolChunk) (pageIdx : ℕ) : Option ℕ :=
  if c.freeBytes = sc.chunkSize then some (sc.nPSizes - 1)
  else (List.range' pageIdx (sc.nPSizes - pageIdx)).find? fun i => !(c.runsAvail i).isEmpty

/-- `splitLargeRun`. -/
def splitLargeRun (sc : SizeClass) (c : PoolChunk) (handle needPages : ℕ) :
    Option (ℕ × PoolChunk) :=
  let totalPages := calculateRunPages handle
  if 0 < needPages ∧ needPages ≤ totalPages then
    let remainPages := totalPages - needPages
    if 0 < remainPages then
      let runOffset := calculateRunOffset handle
      let availOffset := runOffset + needPages
      let availRun := toRunHandle availOffset remainPages 0
      some (toRunHandle runOffset needPages 1,
        c.insertAvailRun sc availOffset remainPages availRun)
    else some (setUsed handle, c)
  else none

/-- `allocateRun`, whose result `none` stands for `-1`. -/
def allocateRun (sc : SizeClass) (c : PoolChunk) (runSize : ℕ) :
    Option (Option ℕ × PoolChunk) :=
  let pages := runSize >>> sc.pageShifts
  match c.runBestFit sc (sc.page2pageIdx pages) with
  | none => some (none, c)
  | some runAvailIdx => do
    let handle ← BestFitQueue.top (c.runsAvail runAvailIdx)
    if isUsed handle then none
    else
      let c := { c with
        runsAvail := Function.update c.runsAvail runAvailIdx
          (BestFitQueue.pop (c.runsAvail runAvailIdx)) }
      let c := c.removeAvailRunFrom runAvailIdx handle
      let (handle, c) ← c.splitLargeRun sc handle pages
      some (some handle, { c with freeBytes := c.freeBytes - PoolChunk.runSize sc.pageShifts handle })

/-- The first loop of `calculateRunSize`, which adds a page at least once. The run is
a multiple of the element after as many pages as an element has bytes. -/
def growRun (pageSize elemSize maxElements : ℕ) : ℕ → ℕ → ℕ
  | 0, runSize => runSize
  | fuel + 1, runSize =>
    let runSize := runSize + pageSize
    let nElements := runSize / elemSize
    if nElements < maxElements ∧ runSize ≠ nElements * elemSize then
      growRun pageSize elemSize maxElements fuel runSize
    else runSize

/-- The second loop of `calculateRunSize`, which drops pages. -/
def shrinkRun (pageSize elemSize maxElements : ℕ) : ℕ → ℕ → ℕ
  | 0, runSize => runSize
  | fuel + 1, runSize =>
    if maxElements < runSize / elemSize then
      shrinkRun pageSize elemSize maxElements fuel (runSize - pageSize)
    else runSize

/-- `calculateRunSize` of a size index. -/
def calculateRunSize (sc : SizeClass) (sizeIdx : ℕ) : Option ℕ :=
  let maxElements := 1 <<< (sc.pageShifts - 4)
  let elemSize := sc.sizeIdx2size sizeIdx
  let runSize := growRun sc.pageSize elemSize maxElements elemSize 0
  let runSize := shrinkRun sc.pageSize elemSize maxElements (runSize / sc.pageSize) runSize
  if 0 < runSize / elemSize ∧ runSize ≤ sc.chunkSize ∧ elemSize ≤ runSize then some runSize
  else none

/-- The entry of `m_subpages` for a run offset is set. -/
def setSubpage (c : PoolChunk) (runOffset : ℕ) (subpage : Option PoolSubpage) : PoolChunk :=
  { c with subpages := Function.update c.subpages runOffset subpage }

@[simp] theorem subpages_setSubpage_self (c : PoolChunk) (runOffset : ℕ)
    (subpage : Option PoolSubpage) : (c.setSubpage runOffset subpage).subpages runOffset = subpage :=
  Function.update_self _ _ _

theorem subpages_setSubpage_of_ne (c : PoolChunk) {o runOffset : ℕ} (h : o ≠ runOffset)
    (subpage : Option PoolSubpage) : (c.setSubpage runOffset subpage).subpages o = c.subpages o :=
  Function.update_of_ne h _ _

/-- `findSubpagePoolHead`, an index into the vector of heads. -/
def findSubpagePoolHead (sc : SizeClass) (sizeIdx : ℕ) : Option ℕ :=
  if sizeIdx < sc.nSubpages then some sizeIdx else none

/-- `allocateSubpage`, whose result `none` stands for `-1`. -/
def allocateSubpage (sc : SizeClass) (id : ℕ) (c : PoolChunk) (pools : Pools) (sizeIdx : ℕ) :
    Option (Option ℕ × PoolChunk × Pools) := do
  let head ← findSubpagePoolHead sc sizeIdx
  let runSize ← calculateRunSize sc sizeIdx
  match ← c.allocateRun sc runSize with
  | (none, c) => some (none, c, pools)
  | (some runHandle, c) =>
    let runOffset := calculateRunOffset runHandle
    if (c.subpages runOffset).isSome then none
    else
      let elemSize := sc.sizeIdx2size sizeIdx
      let (subpage, pools) ← PoolSubpage.new head id sc.pageShifts runOffset
        (PoolChunk.runSize sc.pageShifts runHandle) elemSize pools
      let (handle, subpage, pools) ← subpage.allocate pools
      some (handle, c.setSubpage runOffset (some subpage), pools)

/-- `getAvailRunByOffset`, with `none` for `-1`. -/
def getAvailRunByOffset (c : PoolChunk) (runOffset : ℤ) : Option ℕ := c.runsAvailMap runOffset

/-- `collapsePrev`. Each round moves the start of the run down. -/
def collapsePrev (sc : SizeClass) : ℕ → PoolChunk → ℕ → ℕ × PoolChunk
  | 0, c, handle => (handle, c)
  | fuel + 1, c, handle =>
    let runOffset := calculateRunOffset handle
    let runPages := calculateRunPages handle
    match c.getAvailRunByOffset ((runOffset : ℤ) - 1) with
    | none => (handle, c)
    | some prevRun =>
      let prevOffset := calculateRunOffset prevRun
      let prevPages := calculateRunPages prevRun
      if prevRun ≠ handle ∧ prevPages + prevOffset = runOffset then
        collapsePrev sc fuel (c.removeAvailRun sc prevRun)
          (toRunHandle prevOffset (prevPages + runPages) 0)
      else (handle, c)

/-- `collapseNext`. Each round moves the end of the run up. -/
def collapseNext (sc : SizeClass) : ℕ → PoolChunk → ℕ → ℕ × PoolChunk
  | 0, c, handle => (handle, c)
  | fuel + 1, c, handle =>
    let runOffset := calculateRunOffset handle
    let runPages := calculateRunPages handle
    match c.getAvailRunByOffset (runOffset + runPages : ℕ) with
    | none => (handle, c)
    | some nextRun =>
      let nextOffset := calculateRunOffset nextRun
      let nextPages := calculateRunPages nextRun
      if nextRun ≠ handle ∧ runPages + runOffset = nextOffset then
        collapseNext sc fuel (c.removeAvailRun sc nextRun)
          (toRunHandle runOffset (nextPages + runPages) 0)
      else (handle, c)

/-- `collapseRuns`. A chunk has fewer than `2 ^ 15` pages, which bounds the rounds. -/
def collapseRuns (sc : SizeClass) (c : PoolChunk) (handle : ℕ) : ℕ × PoolChunk :=
  let (handle, c) := collapsePrev sc (2 ^ 15) c handle
  collapseNext sc (2 ^ 15) c handle

/-- `free` keeps the pointer that comes with a region, up to 1023 of them. -/
def cacheBuffer (c : PoolChunk) : Option Addr → PoolChunk
  | some buffer =>
    if c.cachedBuffers.length < 1023 then { c with cachedBuffers := buffer :: c.cachedBuffers }
    else c
  | none => c

/-- The release of a run by `free`. -/
def freeRun (sc : SizeClass) (c : PoolChunk) (handle : ℕ) (buffer : Option Addr) : PoolChunk :=
  let pages := calculateRunPages handle
  let (concateRun, c) := c.collapseRuns sc handle
  let concateRun := clearUse concateRun
  let c := c.insertAvailRun sc (calculateRunOffset concateRun) (calculateRunPages concateRun)
    concateRun
  cacheBuffer { c with freeBytes := c.freeBytes + (pages <<< sc.pageShifts : ℕ) } buffer

/-- `free`. -/
def free (sc : SizeClass) (c : PoolChunk) (pools : Pools) (handle normCapacity : ℕ)
    (buffer : Option Addr) : Option (PoolChunk × Pools) :=
  if isSubpage handle then do
    let head ← findSubpagePoolHead sc (sc.size2sizeIdx normCapacity)
    let sIdx := calculateRunOffset handle
    let subpage ← c.subpages sIdx
    if !subpage.dontRelease then none
    else
      let (kept, subpage, pools) ← subpage.free head (calculateBitmapIdx handle) pools
      if kept then some (c.setSubpage sIdx (some subpage), pools)
      else if subpage.dontRelease then none
      else some ((c.setSubpage sIdx none).freeRun sc handle buffer, pools)
  else some (c.freeRun sc handle buffer, pools)

end PoolChunk

end DuoDuo.Buffer
