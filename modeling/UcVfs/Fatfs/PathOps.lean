import UcVfs.Fatfs.Adapter

/-!
# Operations on paths

The driver functions that take a path build it in the buffer of their mount before they call
FatFs, and hand FatFs nothing but this buffer.
-/

namespace UcVfs

open Framework

variable {Mnt : Type} {ff : FatFs Mnt}

/-- A driver function with a path, and the blank object that it opens. -/
inductive PathOp (ff : FatFs Mnt)
  | open_ (fd : FatfsFileDesc ff.Fil) (name : CStr) (flags : Nat)
  | stat (path : CStr) (buf : Stat)
  | unlink (name : CStr)
  | mkdir (name : CStr)
  | rmdir (name : CStr)
  | opendir (dir : ff.Dir) (dirname : CStr)
  | rename (fromPath toPath : CStr)

namespace PathOp

def prog (m : Mnt) : PathOp ff → FatProg ff Int
  | open_ fd name flags => Prod.fst <$> Fatfs.open_ m fd name flags
  | stat path buf => Prod.fst <$> Fatfs.stat m path buf
  | unlink name => Fatfs.unlink m name
  | mkdir name => Fatfs.mkdir m name
  | rmdir name => Fatfs.rmdir m name
  | opendir dir dirname => Prod.fst <$> Fatfs.opendir m dir dirname
  | rename fromPath toPath => Fatfs.rename m fromPath toPath

/-- The path that goes into the buffer; the source of a rename. -/
def name : PathOp ff → CStr
  | open_ _ name _ | stat name _ | unlink name | mkdir name | rmdir name | opendir _ name
  | rename name _ => name

end PathOp

/-- The paths that a call hands to FatFs. -/
def FatCall.paths : FatCall → List CStr
  | mount path | unmount path | mkfs path | open_ path _ | stat path | unlink path | mkdir path
  | opendir path => [path]
  | rename pathOld pathNew => [pathOld,pathNew]

/-- The path in the buffer after `_build_abs_path`. -/
def FatfsDesc.builtPath (d : FatfsDesc) (name : CStr) : CStr := (d.buildAbsPath name).absPath

theorem FatfsDesc.buildAbsPath_buff (d : FatfsDesc) (name : CStr) :
    (d.buildAbsPath name).absPathStrBuff =
      snprintf d.absPathStrBuff FATFS_MAX_ABS_PATH_SIZE [.lit ['/'],.str name] := rfl

theorem FatfsDesc.buildAbsPath_length (d : FatfsDesc) (name : CStr) :
    (d.buildAbsPath name).absPathStrBuff.length = d.absPathStrBuff.length := by
  rw [buildAbsPath_buff,snprintf_length]

/-- What fits of the name, below the root. -/
theorem FatfsDesc.builtPath_chars {d : FatfsDesc}
    (hbuf : d.absPathStrBuff.length = FATFS_MAX_ABS_PATH_SIZE) (name : CStr) :
    (d.builtPath name).chars = '/' :: name.chars.take (FATFS_MAX_ABS_PATH_SIZE - 2) := by
  have hchars : [Piece.lit ['/'],.str name].flatMap Piece.chars = '/' :: name.chars := by
    simp [Piece.chars]
  have hnul : nul ∉ '/' :: name.chars := by
    intro hm
    rcases List.mem_cons.mp hm with he | hm
    · exact absurd he (by decide)
    · exact name.noNul hm
  rw [builtPath,absPath,buildAbsPath_buff,snprintf_chars hbuf (by decide) _ (by rw [hchars]; exact hnul),
    hchars]
  rfl

/-- A full-size buffer holds the path that was built last, whatever it held before. -/
theorem FatfsDesc.builtPath_congr {d d' : FatfsDesc}
    (hbuf : d.absPathStrBuff.length = FATFS_MAX_ABS_PATH_SIZE)
    (hbuf' : d'.absPathStrBuff.length = FATFS_MAX_ABS_PATH_SIZE) (name : CStr) :
    d'.builtPath name = d.builtPath name := by
  apply CStr.ext
  rw [builtPath_chars hbuf',builtPath_chars hbuf]

/-- What a call about `name` on the mount `m` may do: it hands FatFs the buffer only after it
has built its path there. The holdings say whether it has, and whether FatFs was called. -/
def onPath (m : Mnt) (name : CStr) : Discipline (@FatAct.Resp Mnt ff) (Bool × Bool) where
  pre
    | _,.buildAbsPath n name' => n = m ∧ name' = name
    | (built,_),.open_ n _ _ | (built,_),.stat n | (built,_),.unlink n | (built,_),.rename n _
    | (built,_),.mkdir n | (built,_),.opendir n _ => built = true ∧ n = m
    | _,.desc _ | _,.close _ | _,.closedir _ => True
    | _,_ => False
  post _ _ _ := True
  next
    | (_,called),.buildAbsPath _ _,_ => (true,called)
    | (built,_),.open_ _ _ _,_ | (built,_),.stat _,_ | (built,_),.unlink _,_
    | (built,_),.rename _ _,_ | (built,_),.mkdir _,_ | (built,_),.opendir _ _,_ => (built,true)
    | h,_,_ => h

/-- The buffer of `m` keeps its size and holds `path` once it is built; FatFs was called with
`path` only. -/
structure PathGood (m : Mnt) (path : CStr) (h : Bool × Bool) (s : FatState ff) : Prop where
  length : (s.descs m).absPathStrBuff.length = FATFS_MAX_ABS_PATH_SIZE
  built : h.1 = true → (s.descs m).absPath = path
  calls : ∀ call ∈ s.calls,call.paths.head? = some path
  called : h.2 = true → s.calls ≠ []

private theorem PathGood.called_ {m : Mnt} {path : CStr} {h : Bool × Bool} {s : FatState ff}
    (hG : PathGood m path h s) (hb : h.1 = true) (call : FatCall) (sys : ff.σ)
    (hcall : call.paths.head? = some (s.descs m).absPath) :
    PathGood m path (h.1,true) (s.called call sys) := by
  refine ⟨hG.length,hG.built,?_,fun _ => List.cons_ne_nil _ _⟩
  intro call' hc
  rcases List.mem_cons.mp hc with rfl | hc
  · rw [hcall,hG.built hb]
  · exact hG.calls call' hc

private theorem stat_obeys (m : Mnt) (path : CStr) (buf : Stat) :
    (Fatfs.stat m path buf : FatProg ff (Int × Stat)).Obeys (onPath m path)
      (fun h _ => h = (true,true)) (false,false) := by
  simp only [Fatfs.stat,Fatfs.open_,Fatfs.opendir,Fatfs.closedir,Fatfs.fstat,Fatfs.close,
    Prog.act_bind,Prog.pure_eq,Prog.step_bind,Prog.ret_bind,Prog.obeys_step]
  refine ⟨⟨rfl,rfl⟩,fun _ _ => ⟨trivial,fun _ _ => ⟨⟨rfl,rfl⟩,fun r _ => ?_⟩⟩⟩
  by_cases herr : fatfsErrToErrno r.1 < 0
  · rw [if_pos herr]
    refine ⟨⟨rfl,rfl⟩,fun _ _ => ⟨⟨rfl,rfl⟩,fun d _ => ?_⟩⟩
    dsimp only
    by_cases hdir : fatfsErrToErrno d.1 < 0
    · rw [if_pos hdir]
      rfl
    · rw [if_neg hdir]
      exact ⟨trivial,fun _ _ => rfl⟩
  · rw [if_neg herr]
    refine ⟨⟨rfl,rfl⟩,fun i _ => ?_⟩
    by_cases hres : i.1 = .ok
    · simp only [hres,ne_eq,not_true_eq_false,if_false,Prog.ret_bind]
      exact ⟨trivial,fun _ _ => rfl⟩
    · simp only [hres,ne_eq,not_false_eq_true,if_true,Prog.ret_bind]
      exact ⟨trivial,fun _ _ => rfl⟩

theorem PathOp.obeys (m : Mnt) (op : PathOp ff) :
    (op.prog m).Obeys (onPath m op.name) (fun h _ => h = (true,true)) (false,false) := by
  cases op with
  | stat path buf =>
    apply Prog.Obeys.map
    exact stat_obeys m path buf
  | open_ fd name flags =>
    exact ⟨⟨rfl,rfl⟩,fun _ _ => ⟨trivial,fun _ _ => ⟨⟨rfl,rfl⟩,fun _ _ => rfl⟩⟩⟩
  | unlink | mkdir | rmdir | opendir =>
    exact ⟨⟨rfl,rfl⟩,fun _ _ => ⟨⟨rfl,rfl⟩,fun _ _ => rfl⟩⟩
  | rename =>
    exact ⟨⟨rfl,rfl⟩,fun _ _ => ⟨trivial,fun _ _ => ⟨⟨rfl,rfl⟩,fun _ _ => rfl⟩⟩⟩

variable [DecidableEq Mnt]

private theorem PathGood.act {m : Mnt} {name path : CStr} (h : Bool × Bool) (s : FatState ff)
    (x : FatAct ff) (hpath : ∀ d : FatfsDesc,
      d.absPathStrBuff.length = FATFS_MAX_ABS_PATH_SIZE → d.builtPath name = path)
    (hG : PathGood m path h s) (hpre : (onPath m name).pre h x) :
    ∃ r s',x.exec s = some (r,s') ∧ (onPath m name).post h x r ∧
      PathGood m path ((onPath m name).next h x r) s' := by
  obtain ⟨built,called⟩ := h
  cases x with
  | buildAbsPath n name' =>
    obtain ⟨rfl,rfl⟩ := hpre
    refine ⟨_,_,rfl,trivial,?_,?_,hG.calls,hG.called⟩
    · simpa [FatfsDesc.buildAbsPath_length] using hG.length
    · intro _
      simpa [FatfsDesc.builtPath] using hpath _ hG.length
  | open_ | stat | unlink | mkdir | opendir | rename =>
    obtain ⟨hb,rfl⟩ := hpre
    exact ⟨_,_,rfl,trivial,hG.called_ hb _ _ rfl⟩
  | desc | close | closedir => exact ⟨_,_,rfl,trivial,hG.length,hG.built,hG.calls,hG.called⟩
  | _ => exact absurd hpre id

/-- Run alone, an operation leaves its path in the buffer and has called FatFs with it. -/
theorem PathOp.run_good (m : Mnt) (op : PathOp ff) {s : FatState ff}
    (hbuf : (s.descs m).absPathStrBuff.length = FATFS_MAX_ABS_PATH_SIZE) (hcalls : s.calls = []) :
    ∃ r s',(op.prog m).run FatAct.exec s = some (r,s') ∧
      PathGood m ((s.descs m).builtPath op.name) (true,true) s' := by
  have hpath : ∀ d : FatfsDesc,d.absPathStrBuff.length = FATFS_MAX_ABS_PATH_SIZE →
      d.builtPath op.name = (s.descs m).builtPath op.name := by
    intro d hd
    exact FatfsDesc.builtPath_congr hbuf hd op.name
  have hG : PathGood m ((s.descs m).builtPath op.name) (false,false) s :=
    ⟨hbuf,by simp,by simp [hcalls],by simp⟩
  obtain ⟨r,s',h,hrun,hG',rfl⟩ :=
    (op.obeys m).run (fun h s x hG hpre => hG.act h s x hpath hpre) hG
  exact ⟨r,s',hrun,hG'⟩

end UcVfs
