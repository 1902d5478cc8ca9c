import UcVfs.Vfs.Obligations

/-!
# Runs of the VFS layer

The rules that the callers keep to, and the invariant of every run under them.
-/

namespace UcVfs

open Framework

variable {W : World}

/-- What the callers keep to. A DIR object is used by one call at a time, and read or closed
only while it is open. A call looks only at table entries that it holds or that nobody
holds: a descriptor is used by one call at a time. -/
def Proper (c : VConfig W) : VLabel W → Prop
  | .start _ op => DirOpen c.pool op ∧ match op.dirArg with
    | some d => ∀ j,((vfs W).locals c j).dir.map (·.1) ≠ some d
    | none => True
  | .act i (.file f) _ => ((vfs W).locals c i).fd.map (·.1) = some f ∨
      fdHolders c.pool ((vfs W).locals c) f = 0
  | _ => True

instance (K : Pool W) (op : Op W) : Decidable (DirOpen K op) := by
  unfold DirOpen
  split <;> infer_instance

instance (c : VConfig W) (l : VLabel W) : Decidable (Proper c l) := by
  unfold Proper
  split
  · split <;> infer_instance
  · infer_instance
  · infer_instance

/-- The static data of `vfs.c` before the first call, and mount objects without pins. -/
structure Fresh (s : State W) : Prop where
  list : s.mountsList.head = none
  openFiles : ∀ m,(s.mounts m).openFiles = 0
  files : ∀ f,(s.files f).tcb = none
  calls : s.calls = []

/-- No call in progress and nothing held. -/
def initial (s : State W) : VConfig W := ⟨s,Pool.empty,fun _ => .idle⟩

/-- The file systems of the mount objects. -/
def State.fileSystems (s : State W) (m : W.Mnt) : Option (FileSystem W) := (s.mounts m).fs

abbrev VInv (F : W.Mnt → Option (FileSystem W)) (c : VConfig W) : Prop :=
  (vfs W).Inv (contract F) (Ends F) (Good F) c

theorem locals_initial (s : State W) : (vfs W).locals (initial s) = fun _ => Hold.idle := rfl

theorem inv_initial {s : State W} (h : Fresh s) : VInv s.fileSystems (initial s) := by
  have hpins : ∀ m,totalPins Pool.empty (fun _ => (Hold.idle : Hold W)) m = 0 := by
    intro m
    simp [totalPins,ledger,Pool.pins,Pool.empty,Hold.idle,FdHandle.pins,DirHandle.pins]
  refine ⟨⟨⟨[],Clist.repr_nil h.list,by simp⟩,⟨fun _ => rfl,?_,?_⟩,⟨?_,?_,?_⟩,⟨?_,?_,?_⟩,?_⟩,?_⟩
  · intro m
    change (s.mounts m).openFiles = UInt16.ofNat (totalPins Pool.empty (fun _ => Hold.idle) m)
    rw [hpins,h.openFiles]
    rfl
  · intro m hm
    change 0 < totalPins Pool.empty (fun _ => Hold.idle) m at hm
    rw [hpins] at hm
    omega
  · intro f
    simp [h.files,fdHolders,ledger,Pool.fdWeight,initial,Pool.empty,Hold.fdWeight,Hold.idle,
      System.locals,System.held,vfs]
  · intro f hd hp
    simp [initial,Pool.empty] at hp
  · intro i f hd hp
    simp [locals_initial,Hold.idle] at hp
  · intro d
    simp [dirHolders,ledger,Pool.dirWeight,initial,Pool.empty,Hold.dirWeight,Hold.idle,
      System.locals,System.held,vfs]
  · intro d hd hp
    simp [initial,Pool.empty] at hp
  · intro i d hd hp
    simp [locals_initial,Hold.idle] at hp
  · intro f hd hp
    simp [initial,Pool.empty] at hp
  · intro i op h p hi
    simp [initial] at hi

section Step

variable {F : W.Mnt → Option (FileSystem W)} {c : VConfig W} {i : W.Task} {op : Op W}
  {h : Hold W}

theorem inv_start (hinv : VInv F c) (hidle : c.task i = .idle)
    (hok : Proper c (.start i op)) :
    Good F (c.pool.begin i op).1
      (Function.update ((vfs W).locals c) i (c.pool.begin i op).2) c.shared ∧
    op.prog.Obeys (contract F) (Ends F op) (c.pool.begin i op).2 := by
  have hb := begins c.pool i op
  refine ⟨hinv.good.begin (System.locals_idle hidle) hb ?_,
    obeys_prog hb hinv.good.live hok.1⟩
  intro d hd _ j o hj
  have hno := hok.2
  rw [hd] at hno
  exact hno j (by simp [hj])

theorem inv_act {x : Action W} {next : x.Resp → VProg W Int} {r : x.Resp} {s : State W}
    (hinv : VInv F c) (hbusy : c.task i = .busy op h (.step x next))
    (hok : Proper c (.act i x r)) (hpre : mayTake F h x)
    (hexec : x.exec i c.shared = some (r,s)) :
    learns F h x r ∧ Good F c.pool (Function.update ((vfs W).locals c) i (h.next x r)) s := by
  have hx : x ≠ .fault := by
    rintro rfl
    simp [Action.exec] at hexec
  have hfile : ∀ f,x = .file f →
      (∃ hd,h.fd = some (f,hd)) ∨ fdHolders c.pool ((vfs W).locals c) f = 0 := by
    rintro f rfl
    rcases hok with hf | hz
    · left
      rw [System.locals_busy hbusy] at hf
      obtain ⟨v,hv,rfl⟩ := Option.map_eq_some_iff.mp hf
      exact ⟨v.2,hv⟩
    · exact Or.inr hz
  obtain ⟨r',s',he,hl,hG⟩ := hinv.good.act (System.locals_busy hbusy) hpre hx hfile
  obtain ⟨rfl,rfl⟩ : r' = r ∧ s' = s := by simpa [he] using hexec
  exact ⟨hl,hG⟩

theorem inv_finish {r : Int} (hinv : VInv F c) (hbusy : c.task i = .busy op h (.ret r))
    (hends : Ends F op h r) :
    Good F (c.pool.finish i op h r) (Function.update ((vfs W).locals c) i Hold.idle)
      c.shared := by
  exact hinv.good.finish (System.locals_busy hbusy) hends.handlePins_le hends.live

end Step

/-- The invariant holds in every configuration of every run of proper steps. -/
theorem inv_reachable {ok : VConfig W → VLabel W → Prop} (hok : ∀ c l,ok c l → Proper c l)
    {s : State W} {c : VConfig W} (h : Fresh s)
    (hc : (vfs W).Reachable ok (initial s) c) : VInv s.fileSystems c := by
  refine System.invariant rfl ?_ ?_ ?_ (inv_initial h) hc
  · intro c i op hinv hidle hl
    exact inv_start hinv hidle (hok _ _ hl)
  · intro c i op held x next r s' hinv hbusy hl hpre hexec
    exact inv_act hinv hbusy (hok _ _ hl) hpre hexec
  · intro c i op held r hinv hbusy _ hends
    exact inv_finish hinv hbusy hends

section Demo

/-- Two mount objects, one DIR object and two tasks. -/
def demo : World where
  Mnt := Fin 2
  Dir := Fin 1
  Task := Fin 2
  Drv := Unit
  Priv := Unit
  nullPtr := fun _ => ()
  zeroed := ()
  decMnt := inferInstance
  finMnt := inferInstance
  decDir := inferInstance
  finDir := inferInstance
  decTask := inferInstance
  finTask := inferInstance

def demoMnt : demo.Mnt := (⟨0,Nat.zero_lt_two⟩ : Fin 2)

def demoDir : demo.Dir := (0 : Fin 1)

def demoTask (i : Fin 2) : demo.Task := i

def firstTask : demo.Task := demoTask ⟨0,Nat.zero_lt_two⟩

def secondTask : demo.Task := demoTask ⟨1,Nat.one_lt_two⟩

def demoOk : Option (demo.Mnt → demo.Drv → FsAns demo) := some fun _ _ => ⟨0,Stat.zero,()⟩

def demoOpen (_ : CStr) (_ _ : Nat) (filp : FileView demo) (_ : demo.Drv) : FileAns demo :=
  ⟨0,[],Stat.zero,filp.pos,(),()⟩

/-- A file system that can be formatted, mounted and unmounted, and that opens every file. -/
def demoFs (dOp : Option (DirOps demo)) : FileSystem demo where
  fOp := some ⟨some demoOpen,none,none,none,none,none,none⟩
  dOp := dOp
  fsOp := some ⟨demoOk,demoOk,demoOk,none,none,none,none,none⟩
  flags := 0

def demoState (dOp : Option (DirOps demo)) : State demo where
  mounts := fun _ => ⟨some (demoFs dOp),some CStr.root,0,0⟩
  mountsList := ⟨none,fun _ => none⟩
  files := fun _ => ⟨none,none,0,0,none,()⟩
  dirs := fun _ => ⟨none,none,()⟩
  drv := ()
  mountMutex := 0
  openMutex := 0
  calls := []

theorem demoState_fresh (dOp : Option (DirOps demo)) : Fresh (demoState dOp) :=
  ⟨rfl,fun _ => rfl,fun _ => rfl,rfl⟩

/-- The task calls an operation and takes `n` steps. -/
def callFor (i : Fin 2) (op : Op demo) (n : Nat) : List (Move demo.Task (Op demo)) :=
  .call (demoTask i) op :: List.replicate n (.go (demoTask i))

def demoMount : List (Move demo.Task (Op demo)) := callFor firstTask (.mount (some demoMnt)) 2

end Demo

end UcVfs
