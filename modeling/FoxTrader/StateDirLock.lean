import FoxTrader.Lib.LockTable
import FoxTrader.Lib.Run

/-! # The lock of a state directory

    What an ensemble has learned is kept in a directory. Before it reads or writes there it takes the
    directory's lock, and what it may write to is the path it bound under that lock. A hot-swap loads a
    second ensemble beside the one that serves, hands it a duplicate of the descriptor if it goes to the
    same directory, binds it, and then either publishes it or frees it.

    `writers_sole` says that whatever processes and nodes do in whatever order, no two nodes ever write to
    one directory, however its path is spelled. -/

namespace FoxTrader

open Lib

/-! ### Directories -/

abbrev DirPath := List Char

/-- What `stat` answers: the device and inode of a directory, as one number. -/
abbrev DirStat := DirPath → Option ℕ

/-- A descriptor of a process, and the directory whose lock file it locks. -/
abbrev LockDescriptor := Descriptor (ℕ × ℕ) ℕ

/-- `MODEL_STATE_LOCK_FILE`. -/
def modelStateLockFile : DirPath := ".foxml_state.lock".toList

/-- `MODEL_STATE_FILE_BANDIT`. -/
def modelStateFileBandit : DirPath := "bandit_state.json".toList

/-- `FoxDir_SameDir`. -/
def foxDirSameDir (stat : DirStat) (a b : DirPath) : Bool :=
  if a = [] ∨ b = [] then false
  else
    match stat a, stat b with
    | some x, some y => x == y
    | _, _ => a == b

inductive LockAnswer where
  | failed
  | contended
  | locked (e : LockDescriptor)

/-- `FoxDir_LockExclusive`; `opened` is the descriptor `open` answers, if it does. A path too long for
    `FoxDir_CreateParents` or for the lock file's name fails. -/
def foxDirLockExclusive (stat : DirStat) (table : List LockDescriptor) (process : ℕ) (dir : DirPath)
    (opened : Option ℕ) : LockAnswer :=
  if dir = [] ∨ 511 ≤ dir.length ∨ 512 ≤ (dir ++ '/' :: modelStateLockFile).length then .failed
  else
    match opened, stat dir with
    | some fd, some d => if LockTable.Held table d then .contended else .locked ⟨(process, fd), d⟩
    | _, _ => .failed

/-- A lock that is taken was nobody's, and its descriptor is the one `open` answered. -/
theorem locked_spec {stat : DirStat} {table : List LockDescriptor} {process : ℕ} {dir : DirPath} {opened : Option ℕ}
    {e : LockDescriptor} (hopened : ∀ k ∈ opened, LockTable.Unused table (process, k))
    (h : foxDirLockExclusive stat table process dir opened = .locked e) :
    ∃ fd d, stat dir = some d ∧ ¬LockTable.Held table d ∧ LockTable.Unused table (process, fd) ∧
      e = ⟨(process, fd), d⟩ := by
  unfold foxDirLockExclusive at h
  split at h
  · cases h
  · cases opened with
    | none => cases h
    | some fd =>
      cases hstat : stat dir with
      | none =>
        rw [hstat] at h
        cases h
      | some d =>
        rw [hstat] at h
        dsimp only at h
        split at h
        · cases h
        · next hfree =>
          cases h
          exact ⟨fd, d, rfl, hfree, hopened fd rfl, rfl⟩

/-! ### An ensemble's binding -/

/-- What an `EnsembleModelZoo` knows of its state directory, and which allocation it is. -/
structure StateBinding where
  serial : ℕ
  contended : Bool
  unwritable : Bool
  stateLockFd : Option ℕ
  banditSavePath : DirPath
  deriving DecidableEq

/-- `EnsembleModelZoo_Init`. -/
def StateBinding.init (serial : ℕ) : StateBinding := ⟨serial, false, false, none, []⟩

/-- `EnsembleModelZoo_DeriveStateDir`: the save path up to its last slash. -/
def deriveStateDir (z : StateBinding) : Option DirPath :=
  let dir := ((z.banditSavePath.reverse.dropWhile (· ≠ '/')).drop 1).reverse
  if dir = [] then none else some dir

/-- `FoxDir_Unlock` of an ensemble's descriptor. -/
def foxDirUnlock (table : List LockDescriptor) (process : ℕ) (z : StateBinding) : List LockDescriptor :=
  match z.stateLockFd with
  | none => table
  | some fd => LockTable.close table (process, fd)

/-- The tail of `EnsembleModelZoo_BindStateDir`, with the descriptor in place. -/
def setSavePath (z : StateBinding) (table : List LockDescriptor) (process : ℕ) (dir : DirPath) :
    StateBinding × List LockDescriptor :=
  let path := dir ++ '/' :: modelStateFileBandit
  if 400 ≤ path.length then
    ({ z with banditSavePath := [], stateLockFd := none, unwritable := true }, foxDirUnlock table process z)
  else ({ z with banditSavePath := path }, table)

/-- `EnsembleModelZoo_BindStateDir`, on an ensemble that is loaded and has its bandits. -/
def bindStateDir (z : StateBinding) (stat : DirStat) (table : List LockDescriptor) (process : ℕ) (dir : DirPath)
    (opened : Option ℕ) : StateBinding × List LockDescriptor :=
  if dir = [] then (z, table)
  else
    match z.stateLockFd with
    | some _ => setSavePath z table process dir
    | none =>
      match foxDirLockExclusive stat table process dir opened with
      | .failed => ({ z with unwritable := true, banditSavePath := [] }, table)
      | .contended => ({ z with contended := true, banditSavePath := [] }, table)
      | .locked e => setSavePath { z with stateLockFd := some e.key.2 } (e :: table) process dir

/-! ### Nodes and processes -/

/-- A node of a process. -/
abbrev Party := ℕ × ℕ

inductive SwapStage where
  | loaded
  | handed
  | bound
  deriving DecidableEq

/-- The ensemble a hot-swap is loading, and where from. -/
structure ShadowLoad where
  zoo : StateBinding
  newPath : DirPath
  stage : SwapStage

/-- The ensembles of a node: the one that serves, the one being loaded, the one replaced but not yet freed;
    and the one `oms.ezoo_refs` names. -/
structure NodeEnsembles where
  served : Option StateBinding
  shadow : Option ShadowLoad
  retired : Option StateBinding
  ezooRef : Option ℕ

namespace NodeEnsembles

def none : NodeEnsembles := ⟨.none, .none, .none, .none⟩

end NodeEnsembles

structure StateDirs where
  stat : DirStat
  table : List LockDescriptor
  nodes : Party → NodeEnsembles
  /-- The number of allocations so far. -/
  serial : ℕ

/-- `mismatch`: the strict check of the expected records refuses. -/
inductive DirStep where
  | appear (stat : DirStat)
  | boot (a : Party) (dir : DirPath) (opened : Option ℕ) (mismatch : Bool)
  | save (a : Party)
  | swapLoad (a : Party) (newPath : DirPath) (loads : Bool)
  | swapHand (a : Party) (dup : Option ℕ)
  | swapBind (a : Party) (opened : Option ℕ)
  | swapVerdict (a : Party) (mismatch : Bool)
  | swapRetire (a : Party)
  | exit (process : ℕ)

namespace StateDirs

def setNode (s : StateDirs) (a : Party) (n : NodeEnsembles) : StateDirs :=
  { s with nodes := Function.update s.nodes a n }

/-- The node's ensemble at boot: bound, and freed again where the strict check refuses. -/
def boot (s : StateDirs) (a : Party) (dir : DirPath) (opened : Option ℕ) (mismatch : Bool) : StateDirs :=
  let (z, table) := bindStateDir (.init s.serial) s.stat s.table a.1 dir opened
  let s := { s with serial := s.serial + 1 }
  if mismatch then { s with table := foxDirUnlock table a.1 z }
  else { s with table }.setNode a { s.nodes a with served := some z, ezooRef := some z.serial }

/-- `HotSwap_ShadowLoad_Ensemble` up to the load. -/
def swapLoad (s : StateDirs) (a : Party) (newPath : DirPath) (loads : Bool) : StateDirs :=
  if newPath = [] ∨ (s.nodes a).served = none then s
  else if loads then
    { s with serial := s.serial + 1 }.setNode a
      { s.nodes a with shadow := some ⟨.init s.serial, newPath, .loaded⟩ }
  else { s with serial := s.serial + 1 }

/-- The descriptor the new ensemble is handed: `dup` is what `fcntl` answers. -/
def handedOver (s : StateDirs) (a : Party) (old : StateBinding) (newPath : DirPath) (dup : Option ℕ) :
    Option LockDescriptor :=
  match old.stateLockFd, deriveStateDir old, dup with
  | some fd, some dir, some fd' =>
    if foxDirSameDir s.stat dir newPath then
      (LockTable.lockOf s.table (a.1, fd)).map fun d => ⟨(a.1, fd'), d⟩
    else none
  | _, _, _ => none

/-- Its same-directory handover. -/
def swapHand (s : StateDirs) (a : Party) (dup : Option ℕ) : StateDirs :=
  match (s.nodes a).served, (s.nodes a).shadow with
  | some old, some ⟨z, newPath, .loaded⟩ =>
    match s.handedOver a old newPath dup with
    | some e =>
      { s with table := e :: s.table }.setNode a
        { s.nodes a with shadow := some ⟨{ z with stateLockFd := some e.key.2 }, newPath, .handed⟩ }
    | none => s.setNode a { s.nodes a with shadow := some ⟨z, newPath, .handed⟩ }
  | _, _ => s

/-- Its `EnsembleModelZoo_PostLoadSetup`. -/
def swapBind (s : StateDirs) (a : Party) (opened : Option ℕ) : StateDirs :=
  match (s.nodes a).shadow with
  | some ⟨z, newPath, .handed⟩ =>
    let (z, table) := bindStateDir z s.stat s.table a.1 newPath opened
    { s with table }.setNode a { s.nodes a with shadow := some ⟨z, newPath, .bound⟩ }
  | _ => s

/-- Its verdict: the new ensemble is freed, or published by the exchange of the handle. -/
def swapVerdict (s : StateDirs) (a : Party) (mismatch : Bool) : StateDirs :=
  match (s.nodes a).shadow with
  | some ⟨z, _, .bound⟩ =>
    if z.contended || mismatch then
      { s with table := foxDirUnlock s.table a.1 z }.setNode a { s.nodes a with shadow := none }
    else
      s.setNode a { s.nodes a with served := some z, shadow := none, retired := (s.nodes a).served }
  | _ => s

/-- Its end: the replaced ensemble is freed. -/
def swapRetire (s : StateDirs) (a : Party) : StateDirs :=
  match (s.nodes a).retired with
  | some z => { s with table := foxDirUnlock s.table a.1 z }.setNode a { s.nodes a with retired := none }
  | none => s

/-- A process ends, and with it its descriptors. -/
def exit (s : StateDirs) (process : ℕ) : StateDirs :=
  { s with
    table := s.table.filter fun e => e.key.1 ≠ process
    nodes := fun a => if a.1 = process then .none else s.nodes a }

def step (s : StateDirs) : DirStep → StateDirs
  | .appear stat => { s with stat }
  | .boot a dir opened mismatch => s.boot a dir opened mismatch
  | .save _ => s
  | .swapLoad a newPath loads => s.swapLoad a newPath loads
  | .swapHand a dup => s.swapHand a dup
  | .swapBind a opened => s.swapBind a opened
  | .swapVerdict a mismatch => s.swapVerdict a mismatch
  | .swapRetire a => s.swapRetire a
  | .exit process => s.exit process

/-- The directories written to: by the savers, and by the flush a swap begins with. -/
def writes (s : StateDirs) : DirStep → List (Party × DirPath)
  | .save a => ((s.nodes a).served.bind deriveStateDir).toList.map (a, ·)
  | .swapLoad a newPath _ =>
    if newPath = [] then [] else ((s.nodes a).served.bind deriveStateDir).toList.map (a, ·)
  | _ => []

/-- A key the kernel may answer with. -/
def Offered (s : StateDirs) (process : ℕ) (fd : Option ℕ) : Prop :=
  ∀ k ∈ fd, LockTable.Unused s.table (process, k)

/-- What is taken of the world: directories stay where they are, a new descriptor is not in use, and a node boots
    once and has one swap at a time. -/
def Admitted (s : StateDirs) : DirStep → Prop
  | .appear stat => ∀ p d, s.stat p = some d → stat p = some d
  | .boot a _ opened _ =>
    (s.nodes a).served = none ∧ (s.nodes a).shadow = none ∧ (s.nodes a).retired = none ∧ s.Offered a.1 opened
  | .swapLoad a _ _ => (s.nodes a).shadow = none ∧ (s.nodes a).retired = none
  | .swapHand a dup => s.Offered a.1 dup
  | .swapBind a opened => s.Offered a.1 opened
  | _ => True

/-- No process runs yet. -/
def start (stat : DirStat) : StateDirs := ⟨stat, [], fun _ => .none, 0⟩

/-! ### What is kept -/

inductive Role where
  | served
  | shadow
  | retired
  deriving DecidableEq

/-- A node's ensemble in a role. -/
def zooOf (n : NodeEnsembles) : Role → Option StateBinding
  | .served => n.served
  | .shadow => n.shadow.map ShadowLoad.zoo
  | .retired => n.retired

abbrev Place := Party × Role

/-- The key an ensemble keeps. -/
def keyOf (process : ℕ) (z : Option StateBinding) : Option (ℕ × ℕ) :=
  (z.bind StateBinding.stateLockFd).map (process, ·)

def keeps (nodes : Party → NodeEnsembles) (x : Place) : Option (ℕ × ℕ) := keyOf x.1.1 (zooOf (nodes x.1) x.2)

/-- The descriptor locks the directory the path leads to. -/
def Locks (stat : DirStat) (table : List LockDescriptor) (process fd : ℕ) (dir : DirPath) : Prop :=
  ∃ d, (⟨(process, fd), d⟩ : LockDescriptor) ∈ table ∧ stat dir = some d

/-- The path an ensemble may save under lies in a directory it has the lock of. -/
def BindsUnderLock (stat : DirStat) (table : List LockDescriptor) (process : ℕ) (z : StateBinding) : Prop :=
  z.banditSavePath ≠ [] → ∃ dir fd, dir ≠ [] ∧ z.banditSavePath = dir ++ '/' :: modelStateFileBandit ∧
    z.stateLockFd = some fd ∧ Locks stat table process fd dir

/-- A node's ensembles bind under locks; one that is not bound yet has no path, and a lock of its directory if any;
    and while one is loaded none is left to free. -/
structure NodeInv (stat : DirStat) (table : List LockDescriptor) (process : ℕ) (n : NodeEnsembles) : Prop where
  binds : ∀ r z, zooOf n r = some z → BindsUnderLock stat table process z
  unbound : ∀ sh, n.shadow = some sh → sh.stage ≠ .bound → sh.zoo.banditSavePath = [] ∧
    ∀ fd, sh.zoo.stateLockFd = some fd → sh.stage = .handed ∧ Locks stat table process fd sh.newPath
  alone : n.shadow ≠ none → n.retired = none

structure Inv (s : StateDirs) : Prop where
  claims : Claims (fun x : Place => x.1) s.table (keeps s.nodes)
  node : ∀ a, NodeInv s.stat s.table a.1 (s.nodes a)

section Keeps

variable {stat : DirStat} {table table' : List LockDescriptor} {nodes : Party → NodeEnsembles} {n : NodeEnsembles}
  {a b : Party} {r : Role} {z : StateBinding} {s s' : StateDirs} {process fd : ℕ} {dir : DirPath}

theorem keeps_update (nodes : Party → NodeEnsembles) (a : Party) (n : NodeEnsembles) (x : Place) :
    keeps (Function.update nodes a n) x = if x.1 = a then keyOf a.1 (zooOf n x.2) else keeps nodes x := by
  unfold keeps
  by_cases hx : x.1 = a
  · rw [if_pos hx, hx, Function.update_self]
  · rw [if_neg hx, Function.update_of_ne hx]

theorem zooOf_withServed (n : NodeEnsembles) (z : Option StateBinding) (k : Option ℕ) (r : Role) (hr : r ≠ .served) :
    zooOf { n with served := z, ezooRef := k } r = zooOf n r := by
  cases r with
  | served => exact absurd rfl hr
  | shadow => rfl
  | retired => rfl

theorem zooOf_withShadow (n : NodeEnsembles) (sh : Option ShadowLoad) (r : Role) (hr : r ≠ .shadow) :
    zooOf { n with shadow := sh } r = zooOf n r := by
  cases r with
  | served => rfl
  | shadow => exact absurd rfl hr
  | retired => rfl

theorem zooOf_withRetired (n : NodeEnsembles) (z : Option StateBinding) (r : Role) (hr : r ≠ .retired) :
    zooOf { n with retired := z } r = zooOf n r := by
  cases r with
  | served => rfl
  | shadow => rfl
  | retired => exact absurd rfl hr

/-- A node that is new in one role changes one place. -/
theorem zooOf_role (h : ∀ r' ≠ r, zooOf n r' = zooOf (nodes a) r') {x : Place} (hx : x ≠ (a, r)) :
    zooOf (Function.update nodes a n x.1) x.2 = zooOf (nodes x.1) x.2 := by
  obtain ⟨b, r'⟩ := x
  dsimp only
  rcases eq_or_ne b a with rfl | hb
  · rw [Function.update_self]
    exact h r' fun hr => hx (hr ▸ rfl)
  · rw [Function.update_of_ne hb]

/-- A node's new ensemble in one role. -/
theorem keeps_role (h : ∀ r' ≠ r, zooOf n r' = zooOf (nodes a) r') :
    keeps (Function.update nodes a n) = Function.update (keeps nodes) (a, r) (keyOf a.1 (zooOf n r)) := by
  funext x
  unfold keeps
  rcases eq_or_ne x (a, r) with rfl | hx
  · rw [Function.update_self, Function.update_self]
  · rw [zooOf_role h hx, Function.update_of_ne hx]

theorem Locks.mono (h : Locks stat table process fd dir)
    (hkept : ∀ d, (⟨(process, fd), d⟩ : LockDescriptor) ∈ table → (⟨(process, fd), d⟩ : LockDescriptor) ∈ table') :
    Locks stat table' process fd dir := by
  obtain ⟨d, hd, hstat⟩ := h
  exact ⟨d, hkept d hd, hstat⟩

/-- What a node relies on are the descriptors its ensembles keep. -/
theorem NodeInv.mono (h : NodeInv stat table process n)
    (hkept : ∀ r fd d, keyOf process (zooOf n r) = some (process, fd) →
      (⟨(process, fd), d⟩ : LockDescriptor) ∈ table → (⟨(process, fd), d⟩ : LockDescriptor) ∈ table') :
    NodeInv stat table' process n := by
  have hkey : ∀ r z fd, zooOf n r = some z → z.stateLockFd = some fd →
      keyOf process (zooOf n r) = some (process, fd) := by
    intro r z fd hz hfd
    simp [keyOf, hz, hfd]
  refine ⟨fun r z hz hpath => ?_, fun sh hsh hstage => ?_, h.alone⟩
  · obtain ⟨dir, fd, hdir, hp, hfd, hlocks⟩ := h.binds r z hz hpath
    exact ⟨dir, fd, hdir, hp, hfd, hlocks.mono fun d => hkept r fd d (hkey r z fd hz hfd)⟩
  · obtain ⟨hp, hlocks⟩ := h.unbound sh hsh hstage
    have hz : zooOf n .shadow = some sh.zoo := by
      rw [zooOf, hsh]
      rfl
    refine ⟨hp, fun fd hfd => ?_⟩
    obtain ⟨hhanded, hl⟩ := hlocks fd hfd
    exact ⟨hhanded, hl.mono fun d => hkept .shadow fd d (hkey .shadow _ fd hz hfd)⟩

/-- One node changes, and no other loses a descriptor. -/
theorem Inv.setNode (h : s.Inv) (hstat : s'.stat = s.stat) (hnodes : s'.nodes = s.nodes)
    (hclaims : Claims (fun x : Place => x.1) s'.table (keeps (Function.update s.nodes a n)))
    (hkept : ∀ (x : Place) e, x.1 ≠ a → e ∈ s.table → keeps s.nodes x = some e.key → e ∈ s'.table)
    (hnode : NodeInv s.stat s'.table a.1 n) : (s'.setNode a n).Inv where
  claims := by
    unfold StateDirs.setNode
    dsimp only
    rw [hnodes]
    exact hclaims
  node b := by
    unfold StateDirs.setNode
    dsimp only
    rw [hstat, hnodes]
    rcases eq_or_ne b a with rfl | hba
    · rw [Function.update_self]
      exact hnode
    · rw [Function.update_of_ne hba]
      exact (h.node b).mono fun r fd d hkey hd => hkept (b, r) _ hba hd hkey

/-! ### Binding and freeing -/

theorem deriveStateDir_setSavePath {z : StateBinding} (hdir : dir ≠ [])
    (hpath : z.banditSavePath = dir ++ '/' :: modelStateFileBandit) : deriveStateDir z = some dir := by
  have hslash : '/' ∉ modelStateFileBandit.reverse := by decide
  have hfile : ∀ c ∈ modelStateFileBandit.reverse, c ≠ '/' := fun c hc => ne_of_mem_of_not_mem hc hslash
  unfold deriveStateDir
  rw [hpath, List.reverse_append, List.reverse_cons, List.append_assoc, List.dropWhile_append_of_pos
    fun c hc => decide_eq_true (hfile c hc)]
  simp [hdir]

/-- An unbound ensemble has nowhere to write. -/
theorem deriveStateDir_nil {z : StateBinding} (hpath : z.banditSavePath = []) : deriveStateDir z = none := by
  unfold deriveStateDir
  rw [hpath]
  rfl

/-- How binding an unbound ensemble ends: as it was, or bound by the descriptor it came with, or without it, or bound
    by a new one. -/
theorem bindStateDir_cases (stat : DirStat) (dir : DirPath) (hpath : z.banditSavePath = []) {opened : Option ℕ}
    (hopened : ∀ k ∈ opened, LockTable.Unused table (process, k)) :
    (bindStateDir z stat table process dir opened).1.stateLockFd = z.stateLockFd ∧
        (bindStateDir z stat table process dir opened).2 = table ∧
        (bindStateDir z stat table process dir opened).1.banditSavePath = [] ∨
      dir ≠ [] ∧ (bindStateDir z stat table process dir opened).1.stateLockFd = z.stateLockFd ∧
        z.stateLockFd ≠ none ∧ (bindStateDir z stat table process dir opened).2 = table ∧
        (bindStateDir z stat table process dir opened).1.banditSavePath = dir ++ '/' :: modelStateFileBandit ∨
      (bindStateDir z stat table process dir opened).1.stateLockFd = none ∧
        (bindStateDir z stat table process dir opened).2 = foxDirUnlock table process z ∧
        (bindStateDir z stat table process dir opened).1.banditSavePath = [] ∨
      ∃ fd d, dir ≠ [] ∧ z.stateLockFd = none ∧ stat dir = some d ∧ ¬LockTable.Held table d ∧
        LockTable.Unused table (process, fd) ∧
        (bindStateDir z stat table process dir opened).1.stateLockFd = some fd ∧
        (bindStateDir z stat table process dir opened).2 = ⟨(process, fd), d⟩ :: table ∧
        (bindStateDir z stat table process dir opened).1.banditSavePath = dir ++ '/' :: modelStateFileBandit := by
  unfold bindStateDir
  split
  · exact .inl ⟨rfl, rfl, hpath⟩
  · next hdir =>
    cases hfd : z.stateLockFd with
    | some fd =>
      simp only [setSavePath]
      split
      · exact .inr (.inr (.inl ⟨rfl, rfl, rfl⟩))
      · exact .inr (.inl ⟨hdir, hfd, by simp, rfl, rfl⟩)
    | none =>
      cases hlock : foxDirLockExclusive stat table process dir opened with
      | failed => exact .inl ⟨rfl, rfl, rfl⟩
      | contended => exact .inl ⟨rfl, rfl, rfl⟩
      | locked e =>
        obtain ⟨fd, d, hstat, hfree, hunused, rfl⟩ := locked_spec hopened hlock
        simp only [setSavePath]
        split
        · refine .inl ⟨rfl, ?_, rfl⟩
          simp only [foxDirUnlock, LockTable.close]
          rw [List.filter_cons_of_neg (by simp), List.filter_eq_self]
          exact fun f hf => decide_eq_true (hunused f hf)
        · exact .inr (.inr (.inr ⟨fd, d, hdir, trivial, hstat, hfree, hunused, rfl, rfl, rfl⟩))

section Table

variable {ks : Place → Option (ℕ × ℕ)} {x : Place} {party : Place → Party} {z : StateBinding} {opened : Option ℕ}

theorem keyOf_eq_none (hfd : z.stateLockFd = none) (process : ℕ) : keyOf process (some z) = none := by
  simp [keyOf, hfd]

theorem keyOf_eq_some {fd : ℕ} (hfd : z.stateLockFd = some fd) (process : ℕ) :
    keyOf process (some z) = some (process, fd) := by
  simp [keyOf, hfd]

/-- Freeing an ensemble takes no one else's descriptor. -/
theorem unlock_claims (h : Claims party table ks) (hx : ks x = keyOf process (some z)) :
    Claims party (foxDirUnlock table process z) (Function.update ks x none) ∧
      ∀ y e, y ≠ x → e ∈ table → ks y = some e.key → e ∈ foxDirUnlock table process z := by
  unfold foxDirUnlock
  cases hfd : z.stateLockFd with
  | none =>
    refine ⟨h.letGo fun y k hy => (Claims.update_none_le x y k hy).2, fun y e _ he _ => he⟩
  | some fd =>
    rw [keyOf_eq_some hfd] at hx
    refine ⟨h.close hx, fun y e hyx he hy => LockTable.mem_close.2 ⟨he, fun hkey => hyx ?_⟩⟩
    exact h.keeper y x _ (hkey ▸ hy) hx

/-- Binding takes no one else's descriptor either, and a path is bound under its directory's lock. -/
theorem bind_claims (stat : DirStat) (dir : DirPath) (h : Claims party table ks)
    (hx : ks x = keyOf process (some z)) (hpath : z.banditSavePath = [])
    (hopened : ∀ k ∈ opened, LockTable.Unused table (process, k))
    (hlocks : ∀ fd, z.stateLockFd = some fd → Locks stat table process fd dir) :
    Claims party (bindStateDir z stat table process dir opened).2
        (Function.update ks x (keyOf process (some (bindStateDir z stat table process dir opened).1))) ∧
      (∀ y e, y ≠ x → e ∈ table → ks y = some e.key → e ∈ (bindStateDir z stat table process dir opened).2) ∧
      BindsUnderLock stat (bindStateDir z stat table process dir opened).2 process
        (bindStateDir z stat table process dir opened).1 := by
  have hkey : ∀ {z' : StateBinding}, z'.stateLockFd = z.stateLockFd →
      Function.update ks x (keyOf process (some z')) = ks := by
    intro z' hfd
    have heq : keyOf process (some z') = ks x := by
      rw [hx]
      simp [keyOf, hfd]
    rw [heq, Function.update_eq_self]
  rcases bindStateDir_cases stat dir hpath hopened with
    ⟨hfd, htable, hp⟩ | ⟨hdir, hfd, hsome, htable, hp⟩ | ⟨hfd, htable, hp⟩ |
      ⟨fd, d, hdir, hnone, hstat, hfree, hunused, hfd, htable, hp⟩
  · rw [htable, hkey hfd]
    exact ⟨h, fun y e _ he _ => he, fun hne => absurd hp hne⟩
  · rw [htable, hkey hfd]
    obtain ⟨fd, hz⟩ := Option.ne_none_iff_exists'.1 hsome
    exact ⟨h, fun y e _ he _ => he, fun _ => ⟨dir, fd, hdir, hp, hfd.trans hz, hlocks fd hz⟩⟩
  · rw [htable, keyOf_eq_none hfd]
    obtain ⟨hclaims, hkept⟩ := unlock_claims h hx
    exact ⟨hclaims, hkept, fun hne => absurd hp hne⟩
  · rw [htable, keyOf_eq_some hfd]
    rw [keyOf_eq_none hnone] at hx
    refine ⟨h.acquire hx hunused hfree, fun y e _ he _ => List.mem_cons_of_mem _ he, fun _ => ?_⟩
    exact ⟨dir, fd, hdir, hp, hfd, d, List.mem_cons_self, hstat⟩

end Table

theorem BindsUnderLock.mono {z : StateBinding} (h : BindsUnderLock stat table process z)
    (hkept : ∀ fd d, z.stateLockFd = some fd → (⟨(process, fd), d⟩ : LockDescriptor) ∈ table →
      (⟨(process, fd), d⟩ : LockDescriptor) ∈ table') : BindsUnderLock stat table' process z := by
  intro hpath
  obtain ⟨dir, fd, hdir, hp, hfd, hlocks⟩ := h hpath
  exact ⟨dir, fd, hdir, hp, hfd, hlocks.mono fun d => hkept fd d hfd⟩

/-- The other ensembles of a node stay bound where their descriptors stay. -/
theorem NodeInv.binds_others (h : NodeInv stat table a.1 (nodes a))
    (hkept : ∀ (y : Place) e, y ≠ (a, r) → e ∈ table → keeps nodes y = some e.key → e ∈ table') {r' : Role}
    (hr : r' ≠ r) {z : StateBinding} (hz : zooOf (nodes a) r' = some z) : BindsUnderLock stat table' a.1 z := by
  refine (h.binds r' z hz).mono fun fd d hfd hd => hkept (a, r') _ (by simpa using hr) hd ?_
  simp [keeps, keyOf, hz, hfd]

/-! ### Every step keeps it -/

theorem Inv.boot (h : s.Inv) {opened : Option ℕ} {mismatch : Bool}
    (hadm : s.Admitted (.boot a dir opened mismatch)) : (s.boot a dir opened mismatch).Inv := by
  obtain ⟨hserved, hshadow, hretired, hopened⟩ := hadm
  have hkeeps : keeps s.nodes (a, .served) = none := by
    simp [keeps, keyOf, zooOf, hserved]
  have hkey : keeps s.nodes (a, .served) = keyOf a.1 (some (.init s.serial)) := hkeeps
  obtain ⟨hclaims, hkept, hbinds⟩ :=
    bind_claims s.stat dir h.claims hkey rfl hopened fun fd hfd => (nomatch hfd)
  unfold StateDirs.boot
  generalize bindStateDir (.init s.serial) s.stat s.table a.1 dir opened = r at hclaims hkept hbinds
  obtain ⟨z, table⟩ := r
  dsimp only at hclaims hkept hbinds ⊢
  cases mismatch with
  | true =>
    -- freed again: what it took is given back
    have hown : Function.update (keeps s.nodes) (a, .served) (keyOf a.1 (some z)) (a, .served) = keyOf a.1 (some z) :=
      Function.update_self ..
    obtain ⟨hfreed, hkept'⟩ := unlock_claims hclaims hown
    rw [Function.update_idem, ← hkeeps, Function.update_eq_self] at hfreed
    refine ⟨hfreed, fun b => (h.node b).mono fun r fd d hkey hd => ?_⟩
    have hne : ((b, r) : Place) ≠ (a, .served) := by
      intro heq
      have hsome : keeps s.nodes (b, r) = some (b.1, fd) := hkey
      rw [heq, hkeeps] at hsome
      cases hsome
    refine hkept' (b, r) _ hne (hkept (b, r) _ hne hd hkey) ?_
    rw [Function.update_of_ne hne]
    exact hkey
  | false =>
    refine h.setNode rfl rfl ?_ (fun x e hx he hk => hkept x e (fun hxa => hx (hxa ▸ rfl)) he hk) ?_
    · rw [keeps_role (zooOf_withServed _ _ _)]
      exact hclaims
    · refine ⟨fun r z' hz => ?_, fun sh hsh => ?_, fun hne => absurd hshadow hne⟩
      · cases r with
        | served => exact Option.some.inj hz ▸ hbinds
        | shadow =>
          rw [zooOf, hshadow] at hz
          cases hz
        | retired => exact (nomatch hretired.symm.trans hz)
      · exact (nomatch hshadow.symm.trans hsh)

theorem Inv.swapLoad (h : s.Inv) {newPath : DirPath} {loads : Bool}
    (hadm : s.Admitted (.swapLoad a newPath loads)) : (s.swapLoad a newPath loads).Inv := by
  obtain ⟨hshadow, hretired⟩ := hadm
  unfold StateDirs.swapLoad
  split
  · exact h
  · split
    · refine h.setNode rfl rfl ?_ (fun _ _ _ he _ => he) ?_
      · rw [keeps_role (zooOf_withShadow _ _)]
        exact h.claims.letGo fun x k hx => (Claims.update_none_le (a, .shadow) x k hx).2
      · refine ⟨fun r z hz => ?_, ?_, fun _ => hretired⟩
        · cases r with
          | served => exact (h.node a).binds .served z hz
          | shadow =>
            obtain rfl : StateBinding.init s.serial = z := Option.some.inj hz
            exact fun hne => absurd rfl hne
          | retired => exact (h.node a).binds .retired z hz
        · rintro sh hsh -
          obtain rfl := Option.some.inj hsh
          exact ⟨rfl, fun fd hfd => (nomatch hfd)⟩
    · exact ⟨h.claims, h.node⟩

/-- The descriptor handed over locks the directory the new ensemble goes to. -/
theorem Inv.handedOver_spec (h : s.Inv) {old : StateBinding} {newPath : DirPath} {dup : Option ℕ}
    {e : LockDescriptor} (hold : (s.nodes a).served = some old) (he : s.handedOver a old newPath dup = some e) :
    ∃ fd fd' d, old.stateLockFd = some fd ∧ dup = some fd' ∧ e = ⟨(a.1, fd'), d⟩ ∧
      (⟨(a.1, fd), d⟩ : LockDescriptor) ∈ s.table ∧ s.stat newPath = some d := by
  unfold handedOver at he
  split at he
  · next fd dir fd' hfd hdir =>
    split at he
    · next hsame =>
      obtain ⟨d, hd, rfl⟩ := Option.map_eq_some_iff.1 he
      refine ⟨fd, fd', d, hfd, rfl, rfl, ?_⟩
      obtain ⟨f, hf, hkey, rfl⟩ := LockTable.lockOf_eq_some hd
      obtain ⟨k, d⟩ := f
      obtain rfl : k = (a.1, fd) := hkey
      refine ⟨hf, ?_⟩
      -- the directory it is bound to is the one its descriptor locks
      have hpath : old.banditSavePath ≠ [] := by
        intro hnil
        rw [deriveStateDir_nil hnil] at hdir
        cases hdir
      obtain ⟨dir', fd₂, hne, hp, hfd₂, d', hd', hstat⟩ := (h.node a).binds .served old hold hpath
      obtain rfl := Option.some.inj (hfd.symm.trans hfd₂)
      obtain rfl := Option.some.inj ((deriveStateDir_setSavePath hne hp).symm.trans hdir)
      have hdd : d' = d := congrArg Descriptor.lock (h.claims.eq_of_key hd' hf rfl)
      subst hdd
      unfold foxDirSameDir at hsame
      split at hsame
      · cases hsame
      · rw [hstat] at hsame
        cases hnew : s.stat newPath with
        | some y =>
          rw [hnew] at hsame
          simp only [beq_iff_eq] at hsame
          rw [hsame]
        | none =>
          rw [hnew] at hsame
          simp only [beq_iff_eq] at hsame
          rw [← hsame, hstat] at hnew
          cases hnew
    · cases he
  · cases he

theorem Inv.swapHand (h : s.Inv) {dup : Option ℕ} (hadm : s.Admitted (.swapHand a dup)) :
    (s.swapHand a dup).Inv := by
  unfold StateDirs.swapHand
  split
  · next old z newPath hold hshadow =>
    obtain ⟨hpath, hloaded⟩ := (h.node a).unbound _ hshadow (by simp)
    have hfd : z.stateLockFd = none := by
      refine Option.eq_none_iff_forall_ne_some.2 fun fd hfd => ?_
      exact absurd (hloaded fd hfd).1 (by simp)
    have hkeeps : keeps s.nodes (a, .shadow) = none := by
      simp [keeps, keyOf, zooOf, hshadow, hfd]
    split
    · next e he =>
      obtain ⟨fd, fd', d, hofd, rfl, rfl, hd, hstat⟩ := h.handedOver_spec hold he
      have hserved : keeps s.nodes (a, .served) = some (a.1, fd) := by
        simp [keeps, keyOf, zooOf, hold, hofd]
      refine h.setNode rfl rfl ?_ (fun _ _ _ he _ => List.mem_cons_of_mem _ he) ?_
      · rw [keeps_role (zooOf_withShadow _ _)]
        exact h.claims.duplicate hkeeps (hadm fd' rfl) hd hserved rfl
      · refine ⟨fun r w hw => ?_, ?_, fun _ => (h.node a).alone (by simp [hshadow])⟩
        · cases r with
          | served => exact ((h.node a).binds .served w hw).mono fun _ _ _ => List.mem_cons_of_mem _
          | shadow =>
            obtain rfl := Option.some.inj hw
            exact fun hne => absurd hpath hne
          | retired => exact ((h.node a).binds .retired w hw).mono fun _ _ _ => List.mem_cons_of_mem _
        · rintro sh hsh -
          obtain rfl := Option.some.inj hsh
          refine ⟨hpath, fun k hk => ⟨rfl, d, ?_, hstat⟩⟩
          obtain rfl : fd' = k := Option.some.inj hk
          exact List.mem_cons_self
    · refine h.setNode rfl rfl ?_ (fun _ _ _ he _ => he) ?_
      · rw [keeps_role (zooOf_withShadow _ _)]
        refine h.claims.letGo fun x k hx => ?_
        have hnone : keyOf a.1 (some z) = none := keyOf_eq_none hfd a.1
        rw [show keyOf a.1 (zooOf { s.nodes a with shadow := some ⟨z, newPath, .handed⟩ } .shadow) =
          keyOf a.1 (some z) from rfl, hnone] at hx
        exact (Claims.update_none_le (a, .shadow) x k hx).2
      · refine ⟨fun r w hw => ?_, ?_, fun _ => (h.node a).alone (by simp [hshadow])⟩
        · cases r with
          | served => exact (h.node a).binds .served w hw
          | shadow =>
            obtain rfl := Option.some.inj hw
            exact fun hne => absurd hpath hne
          | retired => exact (h.node a).binds .retired w hw
        · rintro sh hsh -
          obtain rfl := Option.some.inj hsh
          exact ⟨hpath, fun k hk => (nomatch hfd.symm.trans hk)⟩
  · exact h

theorem Inv.swapBind (h : s.Inv) {opened : Option ℕ} (hadm : s.Admitted (.swapBind a opened)) :
    (s.swapBind a opened).Inv := by
  unfold StateDirs.swapBind
  split
  · next z newPath hshadow =>
    obtain ⟨hpath, hlocks⟩ := (h.node a).unbound _ hshadow (by simp)
    have hkey : keeps s.nodes (a, .shadow) = keyOf a.1 (some z) := by
      simp [keeps, zooOf, hshadow]
    obtain ⟨hclaims, hkept, hbinds⟩ :=
      bind_claims s.stat newPath h.claims hkey hpath hadm fun fd hfd => (hlocks fd hfd).2
    generalize bindStateDir z s.stat s.table a.1 newPath opened = r at hclaims hkept hbinds
    obtain ⟨z', table⟩ := r
    dsimp only at hclaims hkept hbinds ⊢
    refine h.setNode rfl rfl ?_ (fun x e hx he hk => hkept x e (fun hxa => hx (hxa ▸ rfl)) he hk) ?_
    · rw [keeps_role (zooOf_withShadow _ _)]
      exact hclaims
    · refine ⟨fun r w hw => ?_, ?_, fun _ => (h.node a).alone (by simp [hshadow])⟩
      · cases r with
        | served =>
          have hold : zooOf (s.nodes a) .served = some w := hw
          exact (h.node a).binds_others hkept (by simp) hold
        | shadow => exact Option.some.inj hw ▸ hbinds
        | retired =>
          have hold : zooOf (s.nodes a) .retired = some w := hw
          exact (h.node a).binds_others hkept (by simp) hold
      · intro sh hsh hstage
        obtain rfl := Option.some.inj hsh
        exact absurd rfl hstage
  · exact h

/-- An ensemble that is freed leaves its node. -/
theorem Inv.free (h : s.Inv) {z : StateBinding} (hz : zooOf (s.nodes a) r = some z)
    (hn : ∀ r', zooOf n r' = if r' = r then none else zooOf (s.nodes a) r')
    (hshadow : ∀ sh, n.shadow = some sh → (s.nodes a).shadow = some sh ∧ r ≠ .shadow)
    (hretired : n.shadow ≠ none → n.retired = none) :
    ({ s with table := foxDirUnlock s.table a.1 z }.setNode a n).Inv := by
  have hkey : keeps s.nodes (a, r) = keyOf a.1 (some z) := by
    unfold keeps
    rw [hz]
  obtain ⟨hclaims, hkept⟩ := unlock_claims h.claims hkey
  refine h.setNode rfl rfl ?_ (fun x e hx he hk => hkept x e (fun hxa => hx (hxa ▸ rfl)) he hk) ?_
  · rw [keeps_role (r := r) fun r' hr => by rw [hn, if_neg hr], hn, if_pos rfl]
    exact hclaims
  · refine ⟨fun r' w hw => ?_, fun sh hsh hstage => ?_, hretired⟩
    · rw [hn] at hw
      split at hw
      · cases hw
      · next hr => exact (h.node a).binds_others hkept hr hw
    · obtain ⟨hsh, hr⟩ := hshadow sh hsh
      obtain ⟨hp, hl⟩ := (h.node a).unbound sh hsh hstage
      refine ⟨hp, fun fd hfd => ?_⟩
      obtain ⟨hhanded, hlocks⟩ := hl fd hfd
      refine ⟨hhanded, hlocks.mono fun d hd => hkept (a, .shadow) _ (by simpa using hr.symm) hd ?_⟩
      simp [keeps, keyOf, zooOf, hsh, hfd]

theorem Inv.swapVerdict (h : s.Inv) (mismatch : Bool) : (s.swapVerdict a mismatch).Inv := by
  unfold StateDirs.swapVerdict
  split
  · next z newPath hshadow =>
    have hretired := (h.node a).alone (by simp [hshadow])
    split
    · refine h.free (r := .shadow) (by simp [zooOf, hshadow]) (fun r' => ?_) (fun sh hsh => (nomatch hsh))
        fun hne => absurd rfl hne
      cases r' <;> rfl
    · refine h.setNode rfl rfl ?_ (fun _ _ _ he _ => he) ?_
      · -- the served one is passed on, and the new one into its place
        have hpass := (h.claims.pass (i := (a, .served)) (j := (a, .retired)) (by simp)
          (by simp [keeps, keyOf, zooOf, hretired]) rfl).pass (i := (a, .shadow)) (j := (a, .served)) (by simp)
          (by rw [Function.update_of_ne (by simp), Function.update_self]) rfl
        refine hpass.letGo fun x k hx => ?_
        obtain ⟨b, r⟩ := x
        rw [keeps_update] at hx
        by_cases hb : b = a
        · subst hb
          rw [if_pos rfl] at hx
          cases r with
          | served =>
            rw [Function.update_self, Function.update_of_ne (by simp), Function.update_of_ne (by simp)]
            simpa [keeps, zooOf, hshadow] using hx
          | shadow => cases hx
          | retired =>
            rw [Function.update_of_ne (by simp), Function.update_of_ne (by simp), Function.update_self]
            exact hx
        · rw [if_neg hb] at hx
          rw [Function.update_of_ne (by simp [hb]), Function.update_of_ne (by simp [hb]),
            Function.update_of_ne (by simp [hb]), Function.update_of_ne (by simp [hb])]
          exact hx
      · refine ⟨fun r w hw => ?_, fun sh hsh => (nomatch hsh), fun hne => absurd rfl hne⟩
        cases r with
        | served => exact (h.node a).binds .shadow w (by simpa [zooOf, hshadow] using hw)
        | shadow => cases hw
        | retired => exact (h.node a).binds .served w hw
  · exact h

theorem Inv.swapRetire (h : s.Inv) : (s.swapRetire a).Inv := by
  unfold StateDirs.swapRetire
  split
  · next z hretired =>
    refine h.free (r := .retired) hretired (fun r' => by cases r' <;> rfl) (fun sh hsh => ⟨hsh, by simp⟩) fun _ => rfl
  · exact h

theorem Inv.exit (h : s.Inv) (process : ℕ) : (s.exit process).Inv := by
  unfold StateDirs.exit
  have hcases : ∀ (x : Place) k, keeps (fun a => if a.1 = process then .none else s.nodes a) x = some k →
      x.1.1 ≠ process ∧ keeps s.nodes x = some k := by
    intro x k hx
    unfold keeps at hx
    by_cases hp : x.1.1 = process
    · simp only [if_pos hp] at hx
      cases hr : x.2 <;> rw [hr] at hx <;> cases hx
    · simp only [if_neg hp] at hx
      exact ⟨hp, hx⟩
  have hkept : ∀ (x : Place) (e : LockDescriptor), x.1.1 ≠ process → e ∈ s.table → keeps s.nodes x = some e.key →
      e ∈ s.table.filter fun e => e.key.1 ≠ process := by
    intro x e hx he hk
    obtain ⟨fd, -, hfd⟩ := Option.map_eq_some_iff.1 hk
    refine List.mem_filter.2 ⟨he, decide_eq_true ?_⟩
    rw [← hfd]
    exact hx
  refine ⟨(h.claims.letGo fun x k hx => (hcases x k hx).2).filter _ fun x e he hk => ?_, fun b => ?_⟩
  · obtain ⟨hx, hk⟩ := hcases x _ hk
    exact (List.mem_filter.1 (hkept x e hx he hk)).2
  · by_cases hb : b.1 = process
    · simp only [if_pos hb]
      refine ⟨fun r z hz => ?_, fun sh hsh => (nomatch hsh), fun _ => rfl⟩
      cases r <;> cases hz
    · simp only [if_neg hb]
      exact (h.node b).mono fun r fd d hkey hd => hkept (b, r) _ hb hd hkey

theorem Inv.appear (h : s.Inv) {stat : DirStat} (hstat : ∀ p d, s.stat p = some d → stat p = some d) :
    { s with stat }.Inv := by
  have hlocks : ∀ {process fd dir}, Locks s.stat s.table process fd dir → Locks stat s.table process fd dir := by
    rintro process fd dir ⟨d, hd, hdir⟩
    exact ⟨d, hd, hstat dir d hdir⟩
  refine ⟨h.claims, fun a => ⟨fun r z hz hpath => ?_, fun sh hsh hstage => ?_, (h.node a).alone⟩⟩
  · obtain ⟨dir, fd, hdir, hp, hfd, hl⟩ := (h.node a).binds r z hz hpath
    exact ⟨dir, fd, hdir, hp, hfd, hlocks hl⟩
  · obtain ⟨hp, hl⟩ := (h.node a).unbound sh hsh hstage
    exact ⟨hp, fun fd hfd => ⟨(hl fd hfd).1, hlocks (hl fd hfd).2⟩⟩

/-- **Every step keeps the directories apart.** -/
theorem Inv.step (h : s.Inv) {c : DirStep} (hadm : s.Admitted c) : (s.step c).Inv := by
  cases c with
  | appear stat => exact h.appear hadm
  | boot a dir opened mismatch => exact h.boot hadm
  | save a => exact h
  | swapLoad a newPath loads => exact h.swapLoad hadm
  | swapHand a dup => exact h.swapHand hadm
  | swapBind a opened => exact h.swapBind hadm
  | swapVerdict a mismatch => exact h.swapVerdict mismatch
  | swapRetire a => exact h.swapRetire
  | exit process => exact h.exit process

theorem inv_start (stat : DirStat) : (start stat).Inv where
  claims := {
    keys := List.nodup_nil
    isOpen := fun x k hx => by cases hr : x.2 <;> simp [keeps, keyOf, zooOf, start, NodeEnsembles.none, hr] at hx
    keeper := fun x y k hx => by cases hr : x.2 <;> simp [keeps, keyOf, zooOf, start, NodeEnsembles.none, hr] at hx
    sole := fun _ _ e _ he => (nomatch he) }
  node a := by
    refine ⟨fun r z hz => ?_, fun sh hsh => (nomatch hsh), fun _ => rfl⟩
    cases r <;> cases hz

theorem inv_run {stat : DirStat} {cs : List DirStep} (h : Steps step Admitted (start stat) cs) :
    (run step (start stat) cs).Inv := by
  have hstep : ∀ (s : StateDirs) (c : DirStep), s.Inv → s.Admitted c → (s.step c).Inv := fun _ _ hs hadm =>
    hs.step hadm
  exact run_inv_of_steps hstep cs (inv_start stat) h

/-- Two ensembles bound to one directory are of one node. -/
theorem Inv.sole (h : s.Inv) {x y : Place} {z w : StateBinding} {p q : DirPath} {d : ℕ}
    (hz : zooOf (s.nodes x.1) x.2 = some z) (hw : zooOf (s.nodes y.1) y.2 = some w) (hp : deriveStateDir z = some p)
    (hq : deriveStateDir w = some q) (hpd : s.stat p = some d) (hqd : s.stat q = some d) : x.1 = y.1 := by
  have hlock : ∀ {x : Place} {z : StateBinding} {p : DirPath}, zooOf (s.nodes x.1) x.2 = some z →
      deriveStateDir z = some p → s.stat p = some d →
        ∃ e ∈ s.table, keeps s.nodes x = some e.key ∧ e.lock = d := by
    intro x z p hz hp hpd
    have hpath : z.banditSavePath ≠ [] := by
      intro hnil
      rw [deriveStateDir_nil hnil] at hp
      cases hp
    obtain ⟨dir, fd, hdir, hsave, hfd, d', hd', hstat⟩ := (h.node x.1).binds x.2 z hz hpath
    obtain rfl := Option.some.inj ((deriveStateDir_setSavePath hdir hsave).symm.trans hp)
    refine ⟨_, hd', by simp [keeps, keyOf, hz, hfd], ?_⟩
    exact Option.some.inj (hstat.symm.trans hpd)
  obtain ⟨e, he, hke, hed⟩ := hlock hz hp hpd
  obtain ⟨f, hf, hkf, hfd⟩ := hlock hw hq hqd
  exact h.claims.sole x y e f he hf hke hkf (hed.trans hfd.symm)

/-- What is written to is the directory a served ensemble is bound to. -/
theorem writes_served {c : DirStep} {p : DirPath} (hw : (a, p) ∈ s.writes c) :
    ∃ z, (s.nodes a).served = some z ∧ deriveStateDir z = some p := by
  have hderived : ∀ b : Party, (a, p) ∈ ((s.nodes b).served.bind deriveStateDir).toList.map (b, ·) →
      ∃ z, (s.nodes a).served = some z ∧ deriveStateDir z = some p := by
    intro b hmem
    obtain ⟨q, hq, heq⟩ := List.mem_map.1 hmem
    obtain ⟨rfl, rfl⟩ := Prod.mk.inj heq
    exact Option.bind_eq_some_iff.1 (Option.mem_toList.1 hq)
  cases c with
  | save b => exact hderived b hw
  | swapLoad b newPath loads =>
    simp only [writes] at hw
    split at hw
    · exact (nomatch hw)
    · exact hderived b hw
  | appear stat => exact (nomatch hw)
  | boot b dir opened mismatch => exact (nomatch hw)
  | swapHand b dup => exact (nomatch hw)
  | swapBind b opened => exact (nomatch hw)
  | swapVerdict b mismatch => exact (nomatch hw)
  | swapRetire b => exact (nomatch hw)
  | exit process => exact (nomatch hw)

/-- **One directory has one writer**: whatever two nodes, of one process or of two, may write at some point of a run
    goes to different directories, however their paths are spelled. -/
theorem writers_sole (stat : DirStat) (cs : List DirStep) (h : Steps step Admitted (start stat) cs) {c c' : DirStep}
    {p q : DirPath} (hp : (a, p) ∈ (run step (start stat) cs).writes c)
    (hq : (b, q) ∈ (run step (start stat) cs).writes c')
    (hsame : (run step (start stat) cs).stat p = (run step (start stat) cs).stat q) : a = b := by
  have hinv := inv_run h
  generalize run step (start stat) cs = s at *
  obtain ⟨z, hz, hzp⟩ := writes_served hp
  obtain ⟨w, hw, hwq⟩ := writes_served hq
  have hpath : z.banditSavePath ≠ [] := by
    intro hnil
    rw [deriveStateDir_nil hnil] at hzp
    cases hzp
  obtain ⟨dir, fd, hdir, hsave, -, d, -, hstat⟩ := (hinv.node a).binds .served z hz hpath
  obtain rfl := Option.some.inj ((deriveStateDir_setSavePath hdir hsave).symm.trans hzp)
  have hx : zooOf (s.nodes ((a, Role.served) : Place).1) ((a, Role.served) : Place).2 = some z := hz
  have hy : zooOf (s.nodes ((b, Role.served) : Place).1) ((b, Role.served) : Place).2 = some w := hw
  exact hinv.sole hx hy hzp hwq hstat (hsame.symm.trans hstat)

/-- Two directories, the first under two spellings. -/
def twoDirs : DirStat := fun p =>
  if p = "m/a".toList ∨ p = "m/a/".toList then some 1 else if p = "m/b".toList then some 2 else none

/-- Two nodes boot into one directory, under one spelling each. -/
def bothSpellings : List DirStep := [
  .boot (1, 0) "m/a".toList (some 5) false,
  .boot (1, 1) "m/a/".toList (some 6) false
]

theorem bothSpellings_admitted : Steps step Admitted (start twoDirs) bothSpellings := by
  refine ⟨⟨rfl, rfl, rfl, ?_⟩, ⟨rfl, rfl, rfl, ?_⟩, trivial⟩
  all_goals
    rintro k ⟨rfl⟩
    decide +kernel

theorem writers_sole_spellings :
    (run step (start twoDirs) bothSpellings).writes (.save (1, 1)) = [] ∧ ((1, 0) : Party) = (1, 0) :=
  have hsave : ((1, 0), "m/a".toList) ∈ (run step (start twoDirs) bothSpellings).writes (.save (1, 0)) := by
    decide +kernel
  have hflush : ((1, 0), "m/a".toList) ∈
      (run step (start twoDirs) bothSpellings).writes (.swapLoad (1, 0) "m/b".toList true) := by
    decide +kernel
  ⟨by decide +kernel, writers_sole twoDirs bothSpellings bothSpellings_admitted hsave hflush rfl⟩

end Keeps

end StateDirs

end FoxTrader
