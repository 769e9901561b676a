import CsuDbms.BufferPoolHeaderModel
import CsuDbms.SortedSearch

/-!
# The B+ tree of an index

Pure transcription of `BplusTreeHandler::insert_entry` and `delete_entry` with the
node handlers under them. Nodes are pages of the index file and refer to each other
by page number. All changes of nodes go through the operations the tree logs; the
operations of one call make up its mini-transaction. Allocating a page always
succeeds here, and pages are disposed of when the mini-transaction ends. Reading
outside a node is an error; so is a fetch of a page that is not allocated.
-/

namespace CsuDbms.BplusTreeModel

open BufferPoolHeaderModel
open SortedSearch KeyComparator

/-- The fields of `IndexFileHeader` the algorithms read, and the key of zero bytes. -/
structure Config (Key : Type) where
  internalMaxSize : Nat
  leafMaxSize : Nat
  zeroKey : Key

/-- The template argument of the functions that work on both kinds of nodes. -/
inductive NodeKind where
  | leaf
  | internal
  deriving DecidableEq, Repr

inductive Body (Key Rid : Type) where
  | leaf (next : Option Nat) (items : List (Key × Rid))
  | internal (items : List (Key × Nat))
  deriving DecidableEq

structure Node (Key Rid : Type) where
  parent : Option Nat
  body : Body Key Rid
  deriving DecidableEq

namespace Config

variable {Key : Type}

def maxSize (config : Config Key) : NodeKind → Nat
  | .leaf => config.leafMaxSize
  | .internal => config.internalMaxSize

def minSize (config : Config Key) (kind : NodeKind) : Nat :=
  config.maxSize kind - config.maxSize kind / 2

end Config

namespace Node

variable {Key Rid : Type}

def zero : Node Key Rid := ⟨some 0, .internal []⟩

def kind (node : Node Key Rid) : NodeKind :=
  match node.body with
  | .leaf _ _ => .leaf
  | .internal _ => .internal

def leafItems (node : Node Key Rid) : List (Key × Rid) :=
  match node.body with
  | .leaf _ items => items
  | .internal _ => []

def childItems (node : Node Key Rid) : List (Key × Nat) :=
  match node.body with
  | .leaf _ _ => []
  | .internal items => items

def nextPage (node : Node Key Rid) : Option Nat :=
  match node.body with
  | .leaf next _ => next
  | .internal _ => none

def keys (node : Node Key Rid) : List Key :=
  match node.body with
  | .leaf _ items => items.map Prod.fst
  | .internal items => items.map Prod.fst

def size (node : Node Key Rid) : Nat := node.keys.length

def keyAt (node : Node Key Rid) (index : Nat) : Except RC Key :=
  match node.keys[index]? with
  | some key => .ok key
  | none => .error .internal

def valueAt (node : Node Key Rid) (index : Nat) : Except RC Nat :=
  match node.childItems[index]? with
  | some item => .ok item.2
  | none => .error .internal

end Node

def leafLookup {Key Rid : Type} [KeyComparator Key] (items : List (Key × Rid)) (key : Key) :
    Nat × Bool :=
  lowerBound (items.map Prod.fst) key

/-- The insert position of `InternalIndexNodeHandler::lookup`: the first key is never
compared. -/
def insertPosition {Key : Type} [KeyComparator Key] (items : List (Key × Nat)) (key : Key) : Nat :=
  if items.length = 0 then 1 else (lowerBound (items.tail.map Prod.fst) key).1 + 1

def internalLookup {Key : Type} [KeyComparator Key] (items : List (Key × Nat)) (key : Key) : Nat :=
  if items.length = 0 then 0
  else
    match items[insertPosition items key]? with
    | none => insertPosition items key - 1
    | some item =>
      if compareKeys key item.1 < 0 then insertPosition items key - 1 else insertPosition items key

inductive Change (Key Rid : Type) where
  | setParentPage (parent : Option Nat)
  | leafInitEmpty
  | leafSetNextPage (next : Option Nat)
  | internalInitEmpty
  | internalCreateNewRoot (first : Nat) (key : Key) (second : Nat)
  | internalUpdateKey (index : Nat) (key : Key)
  | leafInsertItems (index : Nat) (items : List (Key × Rid))
  | internalInsertItems (index : Nat) (items : List (Key × Nat))
  | removeItems (index num : Nat)

section Items

variable {α : Type}

def recoverInsertItems (index : Nat) (items : List α) (old : List α) : List α :=
  old.take index ++ items ++ old.drop index

def recoverRemoveItems (index num : Nat) (old : List α) : List α :=
  old.take index ++ old.drop (index + num)

end Items

/-- The effect of a change, the same when it is made and when it is redone. -/
def Change.apply {Key Rid : Type} (config : Config Key) (node : Node Key Rid) :
    Change Key Rid → Node Key Rid
  | .setParentPage parent => { node with parent := parent }
  | .leafInitEmpty => ⟨none, .leaf none []⟩
  | .internalInitEmpty => ⟨none, .internal []⟩
  | .leafSetNextPage next =>
    match node.body with
    | .leaf _ items => { node with body := .leaf next items }
    | .internal _ => node
  | .internalCreateNewRoot first key second =>
    { node with body := .internal [(config.zeroKey, first), (key, second)] }
  | .internalUpdateKey index key =>
    match node.body with
    | .leaf _ _ => node
    | .internal items =>
      { node with body := .internal (items.modify index fun item => (key, item.2)) }
  | .leafInsertItems index items =>
    match node.body with
    | .leaf next old => { node with body := .leaf next (recoverInsertItems index items old) }
    | .internal _ => node
  | .internalInsertItems index items =>
    match node.body with
    | .leaf _ _ => node
    | .internal old => { node with body := .internal (recoverInsertItems index items old) }
  | .removeItems index num =>
    match node.body with
    | .leaf next old => { node with body := .leaf next (recoverRemoveItems index num old) }
    | .internal old => { node with body := .internal (recoverRemoveItems index num old) }

inductive Operation (Key Rid : Type) where
  | updateRootPage (root : Option Nat)
  | node (page : Nat) (change : Change Key Rid)

/-- The index file: its allocation state, the root page number of the file header
page, and the nodes. -/
structure Tree (Key Rid : Type) where
  header : BPFileHeader
  root : Option Nat
  pages : Nat → Node Key Rid

namespace Tree

variable {Key Rid : Type}

def setPage (tree : Tree Key Rid) (page : Nat) (node : Node Key Rid) : Tree Key Rid :=
  { tree with pages := Function.update tree.pages page node }

def getPage (tree : Tree Key Rid) (page : Nat) : Except RC (Node Key Rid) :=
  if tree.header.checkPageNum page then .ok (tree.pages page)
  else .error .bufferpoolInvalidPageNum

/-- A file after `BplusTreeHandler::create`: pages 0 and 1 are its two headers. -/
def create : Tree Key Rid where
  header := BPFileHeader.create.extend
  root := none
  pages := fun _ => .zero

end Tree

def Operation.apply {Key Rid : Type} (config : Config Key) (tree : Tree Key Rid) :
    Operation Key Rid → Tree Key Rid
  | .updateRootPage root => { tree with root := root }
  | .node page change => tree.setPage page (change.apply config (tree.pages page))

/-- A mini-transaction: the tree as it is in memory, the pages allocated, the
operations logged so far, and the pages to be disposed of at the end. -/
structure Mtr (Key Rid : Type) where
  tree : Tree Key Rid
  allocated : List Nat
  operations : List (Operation Key Rid)
  disposed : List Nat

namespace Mtr

variable {Key Rid : Type} (config : Config Key)

def start (tree : Tree Key Rid) : Mtr Key Rid := ⟨tree, [], [], []⟩

def node (mtr : Mtr Key Rid) (page : Nat) : Node Key Rid := mtr.tree.pages page

def getPage (mtr : Mtr Key Rid) (page : Nat) : Except RC (Node Key Rid) := mtr.tree.getPage page

def log (mtr : Mtr Key Rid) (operation : Operation Key Rid) : Mtr Key Rid :=
  { mtr with
      tree := operation.apply config mtr.tree
      operations := mtr.operations ++ [operation] }

def change (mtr : Mtr Key Rid) (page : Nat) (change : Change Key Rid) : Mtr Key Rid :=
  mtr.log config (.node page change)

def nextPageNum (mtr : Mtr Key Rid) : Nat :=
  mtr.tree.header.freePage.getD mtr.tree.header.pageCount

def allocatePage (mtr : Mtr Key Rid) : Mtr Key Rid :=
  { mtr with
      tree :=
        { mtr.tree.setPage mtr.nextPageNum .zero with
            header :=
              match mtr.tree.header.freePage with
              | some page => mtr.tree.header.reuse page
              | none => mtr.tree.header.extend }
      allocated := mtr.allocated ++ [mtr.nextPageNum] }

def disposePage (mtr : Mtr Key Rid) (page : Nat) : Mtr Key Rid :=
  { mtr with disposed := mtr.disposed ++ [page] }

def commit (mtr : Mtr Key Rid) : Tree Key Rid :=
  { mtr.tree with header := mtr.disposed.foldl BPFileHeader.dispose mtr.tree.header }

section NodeHandlers

/-- Second half of `InternalIndexNodeHandler::insert_items`: every new child is
fetched and given its parent. -/
def adoptChildren (page : Nat) : List (Key × Nat) → Mtr Key Rid → Except RC (Mtr Key Rid)
  | [], mtr => .ok mtr
  | item :: rest, mtr => do
      let _ ← mtr.getPage item.2
      adoptChildren page rest (mtr.change config item.2 (.setParentPage (some page)))

/-- `InternalIndexNodeHandler::insert`, which leaves the child's parent alone. -/
def internalInsert [KeyComparator Key] (mtr : Mtr Key Rid) (page : Nat) (key : Key) (child : Nat) :
    Mtr Key Rid :=
  mtr.change config page
    (.internalInsertItems (insertPosition (mtr.node page).childItems key) [(key, child)])

/-- Copies `num` items of one node, from `index` on, to a position of another: the
common part of `append`, `preappend` and the functions that move items. -/
def copyItems (kind : NodeKind) (mtr : Mtr Key Rid) (page index num other position : Nat) :
    Except RC (Mtr Key Rid) :=
  match kind with
  | .leaf =>
    .ok (mtr.change config other
      (.leafInsertItems position (((mtr.node page).leafItems.drop index).take num)))
  | .internal =>
    let items := ((mtr.node page).childItems.drop index).take num
    adoptChildren config other items
      (mtr.change config other (.internalInsertItems position items))

def moveHalfTo (kind : NodeKind) (mtr : Mtr Key Rid) (page other : Nat) :
    Except RC (Mtr Key Rid) := do
  let size := (mtr.node page).size
  let mtr ← mtr.copyItems config kind page (size / 2) (size - size / 2) other (mtr.node other).size
  return mtr.change config page (.removeItems (size / 2) (size - size / 2))

def moveFirstToEnd (kind : NodeKind) (mtr : Mtr Key Rid) (page other : Nat) :
    Except RC (Mtr Key Rid) := do
  let mtr ← mtr.copyItems config kind page 0 1 other (mtr.node other).size
  return mtr.change config page (.removeItems 0 1)

def moveLastToFront (kind : NodeKind) (mtr : Mtr Key Rid) (page other : Nat) :
    Except RC (Mtr Key Rid) := do
  let last := (mtr.node page).size - 1
  let mtr ← mtr.copyItems config kind page last 1 other 0
  return mtr.change config page (.removeItems last 1)

def leafSetNextPage (kind : NodeKind) (mtr : Mtr Key Rid) (page : Nat) (next : Option Nat) :
    Mtr Key Rid :=
  match kind with
  | .leaf => mtr.change config page (.leafSetNextPage next)
  | .internal => mtr

/-- The leaf version also hands on the pointer to the next leaf. -/
def moveTo (kind : NodeKind) (mtr : Mtr Key Rid) (page other : Nat) :
    Except RC (Mtr Key Rid) := do
  let size := (mtr.node page).size
  let mtr ← mtr.copyItems config kind page 0 size other (mtr.node other).size
  let mtr := mtr.leafSetNextPage config kind other (mtr.node page).nextPage
  return mtr.change config page (.removeItems 0 size)

end NodeHandlers

def initEmpty : NodeKind → Change Key Rid
  | .leaf => .leafInitEmpty
  | .internal => .internalInitEmpty

/-- `split`. The new page is the one allocated first. -/
def split (kind : NodeKind) (mtr : Mtr Key Rid) (page : Nat) : Except RC (Mtr Key Rid × Nat) := do
  let newPage := mtr.nextPageNum
  let mtr := mtr.allocatePage
  let mtr := mtr.change config newPage (initEmpty kind)
  let mtr := mtr.change config newPage (.setParentPage (mtr.node page).parent)
  let mtr ← mtr.moveHalfTo config kind page newPage
  return (mtr, newPage)

def createNewRoot (mtr : Mtr Key Rid) (page newPage : Nat) (key : Key) : Mtr Key Rid :=
  let root := mtr.nextPageNum
  let mtr := mtr.allocatePage
  let mtr := mtr.change config root .internalInitEmpty
  let mtr := mtr.change config root (.internalCreateNewRoot page key newPage)
  let mtr := mtr.change config page (.setParentPage (some root))
  let mtr := mtr.change config newPage (.setParentPage (some root))
  mtr.log config (.updateRootPage (some root))

/-- Puts the new node into its parent, or into the new right half of the parent if
its key is greater than the first one there. -/
def insertIntoHalf [KeyComparator Key] (mtr : Mtr Key Rid) (parent newParent newPage : Nat)
    (key firstKey : Key) : Mtr Key Rid :=
  let half := if 0 < compareKeys key firstKey then newParent else parent
  (mtr.internalInsert config half key newPage).change config newPage (.setParentPage (some half))

def insertEntryIntoParent [KeyComparator Key] :
    Nat → Mtr Key Rid → Nat → Nat → Key → Except RC (Mtr Key Rid)
  | 0, _, _, _, _ => .error .internal
  | fuel + 1, mtr, page, newPage, key =>
    match (mtr.node page).parent with
    | none => .ok (mtr.createNewRoot config page newPage key)
    | some parent => do
        let parentNode ← mtr.getPage parent
        if parentNode.size < config.internalMaxSize then
          return (mtr.internalInsert config parent key newPage).change config newPage
            (.setParentPage (some parent))
        else
          let (mtr, newParent) ← mtr.split config .internal parent
          let firstKey ← (mtr.node newParent).keyAt 0
          let mtr := mtr.insertIntoHalf config parent newParent newPage key firstKey
          let firstKey ← (mtr.node newParent).keyAt 0
          insertEntryIntoParent fuel mtr parent newParent firstKey

def insertIntoFullLeaf [KeyComparator Key] (fuel : Nat) (mtr : Mtr Key Rid) (page position : Nat)
    (key : Key) (rid : Rid) : Except RC (Mtr Key Rid) := do
  let (mtr, newPage) ← mtr.split config .leaf page
  let mtr := mtr.change config newPage (.leafSetNextPage (mtr.node page).nextPage)
  let mtr := mtr.change config newPage (.setParentPage (mtr.node page).parent)
  let mtr := mtr.change config page (.leafSetNextPage (some newPage))
  let left := (mtr.node page).size
  let mtr :=
    if position < left then mtr.change config page (.leafInsertItems position [(key, rid)])
    else mtr.change config newPage (.leafInsertItems (position - left) [(key, rid)])
  let firstKey ← (mtr.node newPage).keyAt 0
  mtr.insertEntryIntoParent config fuel page newPage firstKey

def insertEntryIntoLeafNode [KeyComparator Key] (fuel : Nat) (mtr : Mtr Key Rid) (page : Nat)
    (key : Key) (rid : Rid) : Except RC (Mtr Key Rid) :=
  match leafLookup (mtr.node page).leafItems key with
  | (_, true) => .error .recordDuplicateKey
  | (position, false) =>
    if (mtr.node page).size < config.leafMaxSize then
      .ok (mtr.change config page (.leafInsertItems position [(key, rid)]))
    else mtr.insertIntoFullLeaf config fuel page position key rid

def createNewTree (mtr : Mtr Key Rid) (key : Key) (rid : Rid) : Mtr Key Rid :=
  let page := mtr.nextPageNum
  let mtr := mtr.allocatePage
  let mtr := mtr.change config page .leafInitEmpty
  let mtr := mtr.change config page (.leafInsertItems 0 [(key, rid)])
  mtr.log config (.updateRootPage (some page))

/-- An empty leaf leaves an empty tree, and the last child of an internal node
becomes the root. A child that cannot be fetched ends the function early; its caller
ignores that. -/
def adjustRoot (mtr : Mtr Key Rid) (page : Nat) : Mtr Key Rid :=
  match (mtr.node page).body with
  | .leaf _ items =>
    if 0 < items.length then mtr
    else (mtr.log config (.updateRootPage none)).disposePage page
  | .internal items =>
    match items.head? with
    | none => mtr
    | some item =>
      match mtr.getPage item.2 with
      | .error _ => mtr
      | .ok _ =>
        ((mtr.change config item.2 (.setParentPage none)).log config
          (.updateRootPage (some item.2))).disposePage page

/-- The neighbour is to the right of the first child and to the left of any other. -/
def redistribute (kind : NodeKind) (mtr : Mtr Key Rid) (neighbor page parent index : Nat) :
    Except RC (Mtr Key Rid) :=
  if index = 0 then do
    let mtr ← mtr.moveFirstToEnd config kind neighbor page
    let key ← (mtr.node neighbor).keyAt 0
    return mtr.change config parent (.internalUpdateKey 1 key)
  else do
    let mtr ← mtr.moveLastToFront config kind neighbor page
    let key ← (mtr.node page).keyAt 0
    return mtr.change config parent (.internalUpdateKey index key)

/-- `coalesce` without its last step, which looks at the parent in turn. -/
def coalesce (kind : NodeKind) (mtr : Mtr Key Rid) (left right parent index : Nat) :
    Except RC (Mtr Key Rid) := do
  let mtr := mtr.change config parent (.removeItems index 1)
  let mtr ← mtr.moveTo config kind right left
  let mtr := mtr.leafSetNextPage config kind left (mtr.node right).nextPage
  return mtr.disposePage right

def coalesceOrRedistribute [KeyComparator Key] :
    Nat → NodeKind → Mtr Key Rid → Nat → Except RC (Mtr Key Rid)
  | 0, _, _, _ => .error .internal
  | fuel + 1, kind, mtr, page =>
    let size := (mtr.node page).size
    if config.minSize kind ≤ size then .ok mtr
    else
      match (mtr.node page).parent with
      | none => if 1 < size then .ok mtr else .ok (mtr.adjustRoot config page)
      | some parent => do
          let parentNode ← mtr.getPage parent
          let lastKey ← (mtr.node page).keyAt (size - 1)
          let index := internalLookup parentNode.childItems lastKey
          let neighbor ← parentNode.valueAt (if index = 0 then 1 else index - 1)
          let neighborNode ← mtr.getPage neighbor
          if config.maxSize kind < size + neighborNode.size then
            mtr.redistribute config kind neighbor page parent index
          else do
            let mtr ←
              if index = 0 then mtr.coalesce config kind page neighbor parent 1
              else mtr.coalesce config kind neighbor page parent index
            coalesceOrRedistribute fuel .internal mtr parent

def deleteEntryInternal [KeyComparator Key] (fuel : Nat) (mtr : Mtr Key Rid) (page : Nat)
    (key : Key) : Except RC (Mtr Key Rid) :=
  match leafLookup (mtr.node page).leafItems key with
  | (_, false) => .error .recordNotExist
  | (index, true) =>
    let mtr := mtr.change config page (.removeItems index 1)
    if config.minSize .leaf ≤ (mtr.node page).size then .ok mtr
    else coalesceOrRedistribute config fuel .leaf mtr page

end Mtr

namespace Tree

variable {Key Rid : Type} [KeyComparator Key]

/-- The way down to the leaf for a key, by `find_leaf`, with the pages passed. -/
def findLeaf (tree : Tree Key Rid) (key : Key) : Nat → Nat → Except RC (List Nat)
  | 0, _ => .error .internal
  | fuel + 1, page => do
      let node ← tree.getPage page
      match node.body with
      | .leaf _ _ => return [page]
      | .internal items =>
        let child ← node.valueAt (internalLookup items key)
        let path ← findLeaf tree key fuel child
        return path ++ [page]

/-- No way through the tree is longer than the file has pages. -/
def fuel (tree : Tree Key Rid) : Nat := tree.header.pageCount + 1

def insertEntry (config : Config Key) (tree : Tree Key Rid) (key : Key) (rid : Rid) :
    Except RC (Mtr Key Rid) :=
  match tree.root with
  | none => .ok ((Mtr.start tree).createNewTree config key rid)
  | some root => do
      let path ← tree.findLeaf key tree.fuel root
      match path with
      | [] => .error .internal
      | leaf :: _ => (Mtr.start tree).insertEntryIntoLeafNode config tree.fuel leaf key rid

def deleteEntry (config : Config Key) (tree : Tree Key Rid) (key : Key) :
    Except RC (Mtr Key Rid) :=
  match tree.root with
  | none => .error .recordNotExist
  | some root => do
      let path ← tree.findLeaf key tree.fuel root
      match path with
      | [] => .error .internal
      | leaf :: _ => (Mtr.start tree).deleteEntryInternal config tree.fuel leaf key

end Tree

end CsuDbms.BplusTreeModel
