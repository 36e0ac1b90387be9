import Momo.Momofs.FS

/-! @momo src/momofs/momofs.go | scheme:abstract tree, one effect per request

    What the file system is for: a tree of directories and files. The root is a directory, a node
    hangs on a directory, a file has its whole content at its path. A hard link is a second path
    with the same content; from then on the two have nothing to do with each other. -/

namespace Momo.Momofs

structure Attr where
  mode : UInt32
  uid : UInt32 := 0
  gid : UInt32 := 0
  mTime : Int
  deriving DecidableEq

inductive Node
  | file (attr : Attr) (content : Bytes)
  | dir (attr : Attr)
  deriving DecidableEq

namespace Node

def IsDir : Node → Prop
  | file _ _ => False
  | dir _ => True

instance : DecidablePred IsDir := fun v =>
  match v with
  | file _ _ => inferInstanceAs (Decidable False)
  | dir _ => inferInstanceAs (Decidable True)

def content? : Node → Option Bytes
  | file _ c => some c
  | dir _ => none

def attr : Node → Attr
  | file a _ => a
  | dir a => a

def type : Node → EntryType
  | file _ _ => .file
  | dir _ => .dir

def withAttr (a : Attr) : Node → Node
  | file _ c => file a c
  | dir _ => dir a

end Node

abbrev Tree := PathTree Bytes Node Node.IsDir

abbrev DirAt (node : Path → Option Node) (p : Path) : Prop := ∃ v, node p = some v ∧ v.IsDir

def emptyTree (rootMode : UInt32) : Tree where
  node p := if p = [] then some (.dir { mode := rootMode, mTime := 0 }) else none
  closed p k h := absurd (if_neg (by simp)) h

section Requests

variable [Sha256]

def entryOf (name : Bytes) : Node → Entry
  | .file a c =>
    { name := name, type := .file, mode := a.mode, uid := a.uid, gid := a.gid, size := c.length,
      mTime := a.mTime, hash := hashBytes c }
  | .dir a =>
    { name := name, type := .dir, mode := a.mode, uid := a.uid, gid := a.gid, mTime := a.mTime }

@[simp] theorem entryOf_name (name : Bytes) (v : Node) : (entryOf name v).name = name := by
  cases v <;> rfl

@[simp] theorem entryOf_type (name : Bytes) (v : Node) : (entryOf name v).type = v.type := by
  cases v <;> rfl

inductive Request
  | lookup (p : Path)
  | openFile (p : Path)
  | readAt (p : Path) (off : Int) (n : Nat)
  | readDir (p : Path)
  | mkdir (p : Path) (mode : UInt32)
  | create (p : Path) (mode : UInt32) (content : Reader)
  | remove (p : Path)
  | link (src dst : Path)
  | setAttr (p : Path) (mode uid gid : Option UInt32) (mtime : Option Int)

def Request.Reads : Request → Prop
  | lookup _ | openFile _ | readAt _ _ _ | readDir _ => True
  | _ => False

def Attr.set (a : Attr) (mode uid gid : Option UInt32) (mtime : Option Int) : Attr :=
  { mode := (mode.map permissions).getD a.mode
    uid := uid.getD a.uid
    gid := gid.getD a.gid
    mTime := mtime.getD a.mTime }

def Attr.written (old : Option Node) (mode : UInt32) (now : Int) : Attr :=
  { mode := permissions mode
    uid := (old.map (·.attr.uid)).getD 0
    gid := (old.map (·.attr.gid)).getD 0
    mTime := now }

inductive Effect (now : Int) (t : Tree) : Request → Tree → Prop
  | reads {r : Request} (h : r.Reads) : Effect now t r t
  | mkdir {p : Path} {k : Bytes} {mode : UInt32} (hp : DirAt t.node p)
      (hnew : t.node (p ++ [k]) = none) :
      Effect now t (.mkdir (p ++ [k]) mode)
        (t.put p k (.dir { mode := permissions mode, mTime := now }) hp (Or.inl trivial))
  | create {p : Path} {k : Bytes} {mode : UInt32} {content : Reader} (hp : DirAt t.node p)
      (hfile : ∀ j, t.node (p ++ [k] ++ [j]) = none) (hnotDir : ¬ DirAt t.node (p ++ [k]))
      (hwhole : content.fault = none) :
      Effect now t (.create (p ++ [k]) mode content)
        (t.put p k (.file (.written (t.node (p ++ [k])) mode now) content.data) hp (Or.inr hfile))
  | remove {p : Path} (hp : p ≠ []) (hthere : t.node p ≠ none) (hleaf : ∀ j, t.node (p ++ [j]) = none) :
      Effect now t (.remove p) (t.drop p hleaf)
  | link {src p : Path} {k : Bytes} {a : Attr} {c : Bytes} (hsrc : t.node src = some (.file a c))
      (hp : DirAt t.node p) (hnew : t.node (p ++ [k]) = none)
      (hbelow : ∀ j, t.node (p ++ [k] ++ [j]) = none) :
      Effect now t (.link src (p ++ [k])) (t.put p k (.file a c) hp (Or.inr hbelow))
  | setAttr {p : Path} {k : Bytes} {mode uid gid : Option UInt32} {mtime : Option Int} {v : Node}
      (hp : DirAt t.node p) (hv : t.node (p ++ [k]) = some v)
      (hkind : v.IsDir ∨ ∀ j, t.node (p ++ [k] ++ [j]) = none) :
      Effect now t (.setAttr (p ++ [k]) mode uid gid mtime)
        (t.put p k (v.withAttr (v.attr.set mode uid gid mtime)) hp
          (hkind.imp_left fun h => by cases v <;> exact h))

variable {β : Type} [BlobStore β] [ManifestJSON]

def outcome {α : Type} (r : Except Err α × FS β) : Except Err Unit × FS β :=
  (r.1.map fun _ => (), r.2)

def exec (now : Int) (f : FS β) (r : Request) : Except Err Unit × FS β :=
  let f := { f with log := [] }
  match r with
  | .lookup p => outcome (lookup now (render p) f)
  | .openFile p => outcome (openFile now (render p) f)
  | .readAt p off n => outcome (readAt now (render p) off n f)
  | .readDir p => outcome (readDir now (render p) f)
  | .mkdir p mode => mkdir now (render p) mode f
  | .create p mode content => outcome (create now (render p) mode content f)
  | .remove p => remove now (render p) f
  | .link src dst => link now (render src) (render dst) f
  | .setAttr p mode uid gid mtime => outcome (setAttr now (render p) mode uid gid mtime f)

inductive Follows : FS β → Tree → List (Int × Request) → FS β → Tree → Prop
  | nil {f : FS β} {t : Tree} : Follows f t [] f t
  | ok {f f' f'' : FS β} {t t' t'' : Tree} {now : Int} {r : Request} {rs : List (Int × Request)}
      (hexec : exec now f r = (.ok (), f')) (heffect : Effect now t r t')
      (hrest : Follows f' t' rs f'' t'') : Follows f t ((now, r) :: rs) f'' t''
  | failed {f f' f'' : FS β} {t t'' : Tree} {now : Int} {r : Request} {e : Err}
      {rs : List (Int × Request)} (hexec : exec now f r = (.error e, f'))
      (hrest : Follows f' t rs f'' t'') : Follows f t ((now, r) :: rs) f'' t''

structure Agrees (P : Path → Prop) (f : FS β) (t : Tree) : Prop where
  /-- `Lookup` of the root: a directory. -/
  root : ∀ now, ∃ e, (lookup now (render []) f).1 = .ok e ∧ e.type = .dir
  /-- `Lookup`: the node's entry, and an error where there is no node. -/
  lookup : ∀ now p k, P (p ++ [k]) →
    (lookup now (render (p ++ [k])) f).1.toOption = (t.node (p ++ [k])).map (entryOf k)
  /-- `Open`: a file's whole content and its entry, and an error for anything else. -/
  openFile : ∀ now p k, P (p ++ [k]) → match t.node (p ++ [k]) with
    | some (.file a c) => ∃ rc, (openFile now (render (p ++ [k])) f).1 =
        .ok (rc, entryOf k (.file a c)) ∧ rc.readAll = (c, none)
    | _ => ∃ e, (Momofs.openFile now (render (p ++ [k])) f).1 = .error e
  /-- `ReadAt`: the bytes from the offset on, as many as asked for and there. -/
  readAt : ∀ now p (off n : Nat) a c, P p → t.node p = some (.file a c) →
    (readAt now (render p) off n f).1 =
      if c.length ≤ off then .error eof else .ok ((c.drop off).take n)
  /-- `ReadDir`: the children's entries in the order of their names. -/
  readDir : ∀ now p, P p → DirAt t.node p → ∃ out, (readDir now (render p) f).1 = .ok out ∧
    out.Pairwise (fun a b => a.name < b.name) ∧
    ∀ e, e ∈ out ↔ ∃ v, t.node (p ++ [e.name]) = some v ∧ e = entryOf e.name v

end Requests

end Momo.Momofs
