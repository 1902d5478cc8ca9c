import UcVfs.Framework.Memory
import UcVfs.Vfs.Operations

/-!
# Reading lines

`vfs_readline` asks the driver for one byte at a time. What it does is told from the answers that
the driver would give to reads in a row.
-/

namespace UcVfs

open Framework

/-- The bytes of a list, stored from an offset on. -/
def put (dst : Mem) (i : ℕ) (bytes : List UInt8) : Mem := fun a =>
  if i ≤ a then bytes[a - i]?.getD (dst a) else dst a

/-- `'\r'` and `'\n'`. -/
def isEol (b : UInt8) : Bool := b = 0x0d ∨ b = 0x0a

variable {W : World}

/-- The `while` loop with what is left of `len_max`, what is behind `start`, and `dst - start`. -/
def readlineLoop (filp : Fd) : ℕ → Mem → ℕ → VProg W (ℕ × Mem × ℕ)
  | 0,dst,i => pure (0,dst,i)
  | lenMax + 1,dst,i => do
    let ans ← act (.fileCall filp (.read 1))
    let dst := put dst i ans.data
    if ans.res < 0 then
      pure (lenMax + 1,dst,i)
    else if isEol (dst i) ∨ ans.res = 0 then
      pure (lenMax + 1,put dst i [0],i + 1)
    else
      readlineLoop filp lenMax dst (i + 1)

/-- Returns what is left behind `dst` as well. -/
def vfsReadline (fd : Int) (dst : Option Mem) (lenMax : ℕ) : VProg W (Int × Option Mem) := do
  match ← prepRead fd dst.isSome with
  | .error res => pure (res,dst)
  | .ok filp =>
    let (lenMax,dst,n) ← readlineLoop filp lenMax (dst.getD 0) 0
    if lenMax = 0 then
      pure (-E2BIG,some dst)
    else
      pure (n,some dst)

section Put

variable {dst : Mem} {i : ℕ}

theorem put_nil : put dst i [] = dst := by
  funext a
  simp [put]

theorem put_append (xs ys : List UInt8) :
    put (put dst i xs) (i + xs.length) ys = put dst i (xs ++ ys) := by
  funext a
  simp only [put]
  by_cases hlow : i ≤ a
  · by_cases hmid : i + xs.length ≤ a
    · have hx : xs.length ≤ a - i := by omega
      have hsub : a - (i + xs.length) = a - i - xs.length := by omega
      simp only [hlow,hmid,if_true,List.getElem?_append_right hx,hsub,List.getElem?_eq_none hx,
        Option.getD_none]
    · have hx : a - i < xs.length := by omega
      simp only [hlow,hmid,if_true,if_false,List.getElem?_append_left hx]
  · have hmid : ¬i + xs.length ≤ a := by omega
    simp only [hlow,hmid,if_false]

/-- A byte stored over at most one byte. -/
theorem put_over {data : List UInt8} (h : data.length ≤ 1) (b : UInt8) :
    put (put dst i data) i [b] = put dst i [b] := by
  funext a
  simp only [put]
  by_cases hlow : i ≤ a
  · cases hk : a - i with
    | zero => simp [hlow]
    | succ k =>
      have hnone : data.length ≤ k + 1 := by omega
      simp [hlow,List.getElem?_eq_none hnone]
  · simp only [hlow,if_false]

theorem put_at (b : UInt8) : put dst i [b] i = b := by simp [put]

end Put

/-! ### The answers of the driver -/

section Answers

/-- The entry and the callback that reads of a descriptor go through. -/
def State.reader (s : State W) (fd : Int) : Option (Fd × (Nat → FileView W → W.Drv → FileAns W)) :=
  match fdIndex fd with
  | none => none
  | some filp =>
    let e := s.files filp
    match e.tcb,e.fOp with
    | some _,some ops =>
      if e.flags &&& O_ACCMODE = O_RDONLY ∨ e.flags &&& O_ACCMODE = O_RDWR then
        ops.read.map (filp,·)
      else
        none
    | _,_ => none

variable (filp : Fd) (read : Nat → FileView W → W.Drv → FileAns W)

/-- After a number of one-byte reads in a row. -/
def State.afterReads (s : State W) : ℕ → State W
  | 0 => s
  | n + 1 => (fileCallback filp (.read 1) (read 1) (s.afterReads n)).2

/-- The answer to the one-byte read that follows `n` others. -/
def State.answer (s : State W) (n : ℕ) : FileRet :=
  (fileCallback filp (.read 1) (read 1) (s.afterReads filp read n)).1

end Answers

/-- A byte was read. -/
def FileRet.Delivers (ans : FileRet) (b : UInt8) : Prop := ans.res = 1 ∧ ans.data = [b]

/-- A byte, the end of the file or an error. -/
def FileRet.Proper (ans : FileRet) : Prop :=
  (∃ b,ans.Delivers b) ∨ ans.res ≤ 0 ∧ ans.data.length ≤ 1

/-- The end of a line or of the file. -/
def FileRet.Ends (ans : FileRet) : Prop := ans.res = 0 ∨ ∃ b,ans.Delivers b ∧ isEol b

/-- The loop with the answers of the driver; also how many were asked for. -/
def readlineOf (answer : ℕ → FileRet) : ℕ → Mem → ℕ → (ℕ × Mem × ℕ) × ℕ
  | 0,dst,i => ((0,dst,i),i)
  | lenMax + 1,dst,i =>
    let dst := put dst i (answer i).data
    if (answer i).res < 0 then
      ((lenMax + 1,dst,i),i + 1)
    else if isEol (dst i) ∨ (answer i).res = 0 then
      ((lenMax + 1,put dst i [0],i + 1),i + 1)
    else
      readlineOf answer lenMax dst (i + 1)

section Runs

variable {s : State W} {tcb : W.Task} {filp : Fd} {fd : Int}
  {read : Nat → FileView W → W.Drv → FileAns W}

/-- Reads leave the callbacks in place. -/
theorem afterReads_fOp (n : ℕ) :
    ((s.afterReads filp read n).files filp).fOp = (s.files filp).fOp := by
  induction n with
  | zero => rfl
  | succ n ih =>
    rw [← ih]
    simp [State.afterReads,fileCallback,State.modifyFile,State.returned]

theorem readlineLoop_run (tcb : W.Task) {ops : FileOps W} (hops : (s.files filp).fOp = some ops)
    (hread : ops.read = some read) (lenMax : ℕ) (dst : Mem) (i : ℕ) :
    (readlineLoop filp lenMax dst i).run (Action.exec tcb) (s.afterReads filp read i) =
      some ((readlineOf (s.answer filp read) lenMax dst i).1,
        s.afterReads filp read (readlineOf (s.answer filp read) lenMax dst i).2) := by
  induction lenMax generalizing dst i with
  | zero => rfl
  | succ lenMax ih =>
    have hcall : (Action.fileCall filp (.read 1)).exec tcb (s.afterReads filp read i) =
        some (s.answer filp read i,s.afterReads filp read (i + 1)) := by
      simp [Action.exec,afterReads_fOp,hops,FileOps.callback,hread,State.answer,State.afterReads]
    simp only [readlineLoop,act,Prog.act_bind,Prog.run_step hcall,readlineOf]
    split
    · rfl
    · split
      · rfl
      · exact ih _ _

theorem reader_of_file {ops : FileOps W} {task : W.Task} (hfd : fdIndex fd = some filp)
    (htcb : (s.files filp).tcb = some task) (hops : (s.files filp).fOp = some ops)
    (hflags : (s.files filp).flags = O_RDONLY) (hread : ops.read = some read) :
    s.reader fd = some (filp,read) := by
  have hacc : O_RDONLY &&& O_ACCMODE = O_RDONLY := by decide
  simp [State.reader,hfd,htcb,hops,hflags,hread,hacc]

theorem prepRead_refused (tcb : W.Task) (h : s.reader fd = none) :
    ∃ res < 0,(prepRead fd true).run (Action.exec tcb) s = some (.error res,s) := by
  have hfile : ∀ filp,(Action.file filp).exec tcb s = some (s.files filp,s) := fun _ => rfl
  simp only [State.reader] at h
  simp only [prepRead,fdIsValid,not_true_eq_false,if_false]
  cases hfd : fdIndex fd with
  | none => exact ⟨-EBADF,by decide,rfl⟩
  | some filp =>
    simp only [hfd] at h
    simp only [act,Prog.act_bind,Prog.step_bind,Prog.run_step (hfile filp)]
    cases htcb : (s.files filp).tcb with
    | none => exact ⟨-EBADF,by decide,rfl⟩
    | some task =>
      simp only [Option.isNone_some,Bool.false_eq_true,if_false,Prog.step_bind,
        Prog.run_step (hfile filp)]
      cases hops : (s.files filp).fOp with
      | none => exact ⟨-EBADF,by decide,rfl⟩
      | some ops =>
        simp only [Option.isNone_some,Bool.false_eq_true,if_false,Prog.pure_eq,Prog.ret_bind,
          Prog.run_step (hfile filp)]
        by_cases hflags : (s.files filp).flags &&& O_ACCMODE = O_RDONLY ∨
            (s.files filp).flags &&& O_ACCMODE = O_RDWR
        · have hread : ops.read = none := by simpa [htcb,hops,hflags] using h
          refine ⟨-EINVAL,by decide,?_⟩
          rw [if_neg (by tauto)]
          simp [fileOps,act,Prog.run_step (hfile filp),hops,hread,Prog.run]
        · refine ⟨-EBADF,by decide,?_⟩
          rw [if_pos (by tauto)]
          rfl

theorem prepRead_accepted (tcb : W.Task) (h : s.reader fd = some (filp,read)) :
    (prepRead fd true).run (Action.exec tcb) s = some (.ok filp,s) ∧
      ∃ ops,(s.files filp).fOp = some ops ∧ ops.read = some read := by
  have hfile : ∀ filp,(Action.file filp).exec tcb s = some (s.files filp,s) := fun _ => rfl
  simp only [State.reader] at h
  cases hfd : fdIndex fd with
  | none => simp [hfd] at h
  | some filp' =>
    cases htcb : (s.files filp').tcb with
    | none => simp [hfd,htcb] at h
    | some task =>
      cases hops : (s.files filp').fOp with
      | none => simp [hfd,htcb,hops] at h
      | some ops =>
        by_cases hflags : (s.files filp').flags &&& O_ACCMODE = O_RDONLY ∨
            (s.files filp').flags &&& O_ACCMODE = O_RDWR
        · obtain ⟨hread,rfl⟩ : ops.read = some read ∧ filp' = filp := by
            simpa [hfd,htcb,hops,hflags] using h
          refine ⟨?_,ops,hops,hread⟩
          simp only [prepRead,fdIsValid,not_true_eq_false,if_false,hfd,act,Prog.act_bind,
            Prog.step_bind,Prog.run_step (hfile filp'),htcb,hops,Option.isNone_some,
            Bool.false_eq_true,Prog.pure_eq,Prog.ret_bind]
          rw [if_neg (by tauto)]
          simp [fileOps,act,Prog.run_step (hfile filp'),hops,hread,Prog.run]
        · simp [hfd,htcb,hops,hflags] at h

/-- Without a descriptor that can be read, or without a buffer, nothing is read. -/
theorem vfsReadline_refused {dst : Option Mem} (h : dst = none ∨ s.reader fd = none)
    (lenMax : ℕ) :
    ∃ res < 0,(vfsReadline fd dst lenMax).run (Action.exec tcb) s = some ((res,dst),s) := by
  cases dst with
  | none => exact ⟨-EFAULT,by decide,rfl⟩
  | some dst =>
    obtain ⟨res,hneg,hprep⟩ := prepRead_refused tcb (h.resolve_left (by simp))
    exact ⟨res,hneg,by simp only [vfsReadline,Option.isSome_some,Prog.run_bind hprep]; rfl⟩

theorem vfsReadline_run (h : s.reader fd = some (filp,read)) (dst : Mem) (lenMax : ℕ) :
    (vfsReadline fd (some dst) lenMax).run (Action.exec tcb) s =
      let ((left,out,n),made) := readlineOf (s.answer filp read) lenMax dst 0
      some ((if left = 0 then -E2BIG else n,some out),s.afterReads filp read made) := by
  obtain ⟨hprep,ops,hops,hread⟩ := prepRead_accepted tcb h
  have hloop : (readlineLoop filp lenMax dst 0).run (Action.exec tcb) s = _ :=
    readlineLoop_run tcb hops hread lenMax dst 0
  simp only [vfsReadline,Option.isSome_some,Prog.run_bind hprep,Option.getD_some,
    Prog.run_bind hloop]
  by_cases hleft : (readlineOf (s.answer filp read) lenMax dst 0).1.1 = 0
  · simp only [hleft,if_true,Prog.pure_eq,Prog.run]
  · simp only [hleft,if_false,Prog.pure_eq,Prog.run]

end Runs

/-- The first answers are the bytes of a line, none of which ends it. -/
def BeginsWith (answer : ℕ → FileRet) (bs : List UInt8) : Prop :=
  ∀ j (h : j < bs.length),(answer j).Delivers bs[j] ∧ ¬isEol bs[j]

section Lines

variable {answer : ℕ → FileRet} {dst : Mem} {line : List UInt8}

/-- Bytes that do not end the line go to the buffer one after the other. -/
theorem readlineOf_bytes (bs : List UInt8) (lenMax : ℕ) (dst : Mem) (i : ℕ)
    (hbytes : ∀ j (h : j < bs.length),(answer (i + j)).Delivers bs[j] ∧ ¬isEol bs[j]) :
    readlineOf answer (bs.length + lenMax) dst i =
      readlineOf answer lenMax (put dst i bs) (i + bs.length) := by
  induction bs generalizing dst i with
  | nil => rw [put_nil,List.length_nil,Nat.zero_add,Nat.add_zero]
  | cons b line ih =>
    obtain ⟨⟨hres,hdata⟩,heol⟩ := hbytes 0 (Nat.zero_lt_succ _)
    rw [Nat.add_zero] at hres hdata
    have hb : (b :: line)[0] = b := rfl
    rw [hb] at hdata heol
    have hrest := ih (put dst i [b]) (i + 1) (by
      intro j h
      have hnext : i + 1 + j = i + (j + 1) := by omega
      rw [hnext]
      exact hbytes (j + 1) (Nat.succ_lt_succ h))
    rw [List.length_cons,Nat.succ_add,readlineOf,hdata,put_at,hres]
    simp only [heol,show ¬(1 : Int) < 0 by decide,show ¬(1 : Int) = 0 by decide,or_self,if_false,
      Bool.false_eq_true]
    rw [hrest,show put (put dst i [b]) (i + 1) line = put dst i (b :: line) from
      put_append [b] line,Nat.add_assoc,Nat.add_comm 1]

/-- The line is as long as the buffer. -/
theorem readlineOf_full (hbytes : BeginsWith answer line) :
    readlineOf answer line.length dst 0 = ((0,put dst 0 line,line.length),line.length) := by
  have hrun := readlineOf_bytes line 0 dst 0 (by simpa [BeginsWith] using hbytes)
  rw [Nat.add_zero,Nat.zero_add] at hrun
  rw [hrun,readlineOf]

/-- The line or the file ends after the bytes of the line. -/
theorem readlineOf_ends {left : ℕ} (hbytes : BeginsWith answer line)
    (hproper : (answer line.length).Proper) (hends : (answer line.length).Ends) :
    readlineOf answer (line.length + (left + 1)) dst 0 =
      ((left + 1,put dst 0 (line ++ [0]),line.length + 1),line.length + 1) := by
  have hrun := readlineOf_bytes line (left + 1) dst 0 (by simpa [BeginsWith] using hbytes)
  rw [Nat.zero_add] at hrun
  have hneg : ¬(answer line.length).res < 0 := by
    rcases hends with hzero | ⟨b,⟨hone,_⟩,_⟩ <;> omega
  have hdata : (answer line.length).data.length ≤ 1 := by
    rcases hproper with ⟨b,_,hdata⟩ | ⟨_,hdata⟩
    · rw [hdata]
      exact le_refl 1
    · exact hdata
  have hstop : isEol (put (put dst 0 line) line.length (answer line.length).data line.length) ∨
      (answer line.length).res = 0 := by
    rcases hends with hzero | ⟨b,⟨_,hdata⟩,heol⟩
    · exact Or.inr hzero
    · rw [hdata,put_at]
      exact Or.inl heol
  rw [hrun,readlineOf,if_neg hneg,if_pos hstop,put_over hdata]
  have happ : put (put dst 0 line) (0 + line.length) [0] = _ := put_append line [0]
  rw [Nat.zero_add] at happ
  rw [happ]

/-- An error after the bytes of the line. -/
theorem readlineOf_error {left : ℕ} (hbytes : BeginsWith answer line)
    (herror : (answer line.length).res < 0) :
    readlineOf answer (line.length + (left + 1)) dst 0 =
      ((left + 1,put (put dst 0 line) line.length (answer line.length).data,line.length),
        line.length + 1) := by
  have hrun := readlineOf_bytes line (left + 1) dst 0 (by simpa [BeginsWith] using hbytes)
  rw [Nat.zero_add] at hrun
  rw [hrun,readlineOf,if_pos herror]

/-- Answers of a driver begin with the bytes of a line that fills the buffer, or that ends before,
or that an error cuts short. -/
theorem line_cases (hproper : ∀ k,(answer k).Proper) (lenMax : ℕ) :
    ∃ line : List UInt8,BeginsWith answer line ∧
      (line.length = lenMax ∨
        line.length < lenMax ∧ ((answer line.length).Ends ∨ (answer line.length).res < 0)) := by
  induction lenMax with
  | zero => exact ⟨[],by simp [BeginsWith],Or.inl rfl⟩
  | succ lenMax ih =>
    obtain ⟨line,hbytes,hlen⟩ := ih
    rcases hlen with hlen | ⟨hlt,hstop⟩
    · rcases hproper line.length with ⟨b,hb⟩ | ⟨hres,_⟩
      · by_cases heol : isEol b
        · exact ⟨line,hbytes,Or.inr ⟨by omega,Or.inl (Or.inr ⟨b,hb,heol⟩)⟩⟩
        · refine ⟨line ++ [b],?_,Or.inl (by simp [hlen])⟩
          intro j h
          rw [List.length_append,List.length_singleton] at h
          by_cases hj : j < line.length
          · rw [List.getElem_append_left hj]
            exact hbytes j hj
          · obtain rfl : j = line.length := by omega
            rw [List.getElem_concat_length rfl]
            exact ⟨hb,heol⟩
      · refine ⟨line,hbytes,Or.inr ⟨by omega,?_⟩⟩
        rcases lt_or_eq_of_le hres with hneg | hzero
        · exact Or.inr hneg
        · exact Or.inl (Or.inl hzero)
    · exact ⟨line,hbytes,Or.inr ⟨by omega,hstop⟩⟩

theorem BeginsWith.not_ends (h : BeginsWith answer line) {j : ℕ} (hj : j < line.length) :
    ¬(answer j).Ends := by
  obtain ⟨⟨hres,hdata⟩,heol⟩ := h j hj
  rintro (hzero | ⟨b,⟨_,hb⟩,hend⟩)
  · omega
  · rw [hdata] at hb
    rw [(List.cons.inj hb).1] at heol
    exact heol hend

theorem BeginsWith.no_error (h : BeginsWith answer line) {j : ℕ} (hj : j < line.length) :
    ¬(answer j).res < 0 := by
  rw [(h j hj).1.1]
  decide

theorem FileRet.Ends.no_error {ans : FileRet} (h : ans.Ends) : ¬ans.res < 0 := by
  rcases h with hzero | ⟨b,⟨hone,_⟩,_⟩ <;> omega

theorem put_inside {bytes : List UInt8} {j : ℕ} (hj : j < bytes.length) :
    put dst 0 bytes j = bytes[j] := by
  simp [put,hj]

theorem put_outside {bytes : List UInt8} {a : ℕ} (ha : bytes.length ≤ a) :
    put dst 0 bytes a = dst a := by
  simp [put,ha]

end Lines

/-- A failed read makes the call fail, and what a call that does not fail leaves in the buffer are
the bytes that it read and the terminator. -/
def ErrorsShow (answer : ℕ → FileRet) (made : ℕ) (r : Int) (out : Mem) : Prop :=
  ((∃ k < made,(answer k).res < 0) → r < 0) ∧
    (0 ≤ r → 1 ≤ r ∧ out (r.toNat - 1) = 0 ∧
      ∀ j < r.toNat - 1,j < made ∧ (answer j).Delivers (out j))

/-- No error comes before the end of the line. -/
def NoErrorInLine (answer : ℕ → FileRet) (lenMax : ℕ) : Prop :=
  ∀ k < lenMax,(answer k).res < 0 → ∃ j < k,(answer j).Ends

section Errors

variable {answer : ℕ → FileRet} {line : List UInt8} {lenMax : ℕ} {dst : Mem}

theorem BeginsWith.errorsShow (h : BeginsWith answer line) (hends : (answer line.length).Ends) :
    ErrorsShow answer (line.length + 1) (line.length + 1 : ℕ) (put dst 0 (line ++ [0])) := by
  constructor
  · rintro ⟨k,hk,herror⟩
    rcases Nat.lt_succ_iff_lt_or_eq.mp hk with hlt | rfl
    · exact absurd herror (h.no_error hlt)
    · exact absurd herror hends.no_error
  · intro _
    have hn : ((line.length + 1 : ℕ) : Int).toNat - 1 = line.length := by omega
    rw [hn]
    refine ⟨by omega,?_,?_⟩
    · rw [put_inside (by simp)]
      simp
    · intro j hj
      have hin : j < (line ++ [0]).length := by simp; omega
      rw [put_inside hin,List.getElem_append_left hj]
      exact ⟨by omega,(h j hj).1⟩

theorem BeginsWith.noErrorInLine (h : BeginsWith answer line)
    (hends : line.length = lenMax ∨ (answer line.length).Ends) : NoErrorInLine answer lenMax := by
  intro k hk herror
  have hge : line.length ≤ k := by
    by_contra hlt
    exact h.no_error (Nat.lt_of_not_le hlt) herror
  rcases hends with hlen | hends
  · omega
  · rcases Nat.eq_or_lt_of_le hge with rfl | hlt
    · exact absurd herror hends.no_error
    · exact ⟨line.length,hlt,hends⟩

/-- `vfs_readline` hides no error of a read exactly when none comes before the end of the line. -/
theorem readline_errors {W : World} (tcb : W.Task) (s : State W) (fd : Int) (lenMax : ℕ) :
    (∀ dst,dst = none ∨ s.reader fd = none →
      ∃ r < 0,(vfsReadline fd dst lenMax).run (Action.exec tcb) s = some ((r,dst),s)) ∧
    ∀ dst filp read,s.reader fd = some (filp,read) → (∀ k,(s.answer filp read k).Proper) →
      ∃ r out made,(vfsReadline fd (some dst) lenMax).run (Action.exec tcb) s =
          some ((r,some out),s.afterReads filp read made) ∧
        (ErrorsShow (s.answer filp read) made r out ↔
          NoErrorInLine (s.answer filp read) lenMax) := by
  refine ⟨fun dst h => vfsReadline_refused h lenMax,?_⟩
  intro dst filp read hreader hproper
  rw [vfsReadline_run hreader]
  obtain ⟨line,hbytes,hlen | ⟨hlt,hstop⟩⟩ := line_cases hproper lenMax
  · rw [← hlen,readlineOf_full hbytes]
    refine ⟨-E2BIG,_,_,rfl,?_⟩
    have hshow : ErrorsShow (s.answer filp read) line.length (-E2BIG) (put dst 0 line) :=
      ⟨fun _ => by decide,fun h => absurd h (by decide)⟩
    exact ⟨fun _ => hbytes.noErrorInLine (Or.inl rfl),fun _ => hshow⟩
  · obtain ⟨left,rfl⟩ : ∃ left,lenMax = line.length + (left + 1) :=
      ⟨lenMax - line.length - 1,by omega⟩
    rcases hstop with hends | herror
    · rw [readlineOf_ends hbytes (hproper _) hends]
      refine ⟨_,_,_,rfl,?_⟩
      rw [if_neg (Nat.succ_ne_zero left)]
      exact ⟨fun _ => hbytes.noErrorInLine (Or.inr hends),fun _ => hbytes.errorsShow hends⟩
    · rw [readlineOf_error hbytes herror]
      refine ⟨_,_,_,rfl,?_⟩
      rw [if_neg (Nat.succ_ne_zero left)]
      constructor
      · intro hshow
        have hneg := hshow.1 ⟨line.length,Nat.lt_succ_self _,herror⟩
        exact absurd hneg (not_lt.mpr (Int.natCast_nonneg _))
      · intro hno
        obtain ⟨j,hj,hends⟩ := hno line.length hlt herror
        exact absurd hends (hbytes.not_ends hj)

end Errors

/-- The descriptor reads a file of given contents; `At p` are the states in which it stands at
position `p`. -/
structure Serves (fd : Int) (filp : Fd) (read : Nat → FileView W → W.Drv → FileAns W)
    (content : List UInt8) (At : ℕ → State W → Prop) : Prop where
  reader : ∀ p s,At p s → s.reader fd = some (filp,read)
  byte : ∀ p s (h : p < content.length),At p s →
    (fileCallback filp (.read 1) (read 1) s).1.Delivers content[p] ∧
      At (p + 1) (fileCallback filp (.read 1) (read 1) s).2
  eof : ∀ p s,content.length ≤ p → At p s →
    (fileCallback filp (.read 1) (read 1) s).1.res = 0 ∧
      (fileCallback filp (.read 1) (read 1) s).1.data.length ≤ 1 ∧
      At p (fileCallback filp (.read 1) (read 1) s).2

/-- The rest of the line from a position on. -/
def lineAt (content : List UInt8) (p : ℕ) : List UInt8 :=
  (content.drop p).takeWhile (!isEol ·)

/-- Lines read one after the other, each into a buffer of its own. -/
def readlines (fd : Int) (lenMax : ℕ) : List Mem → VProg W (List (Int × Option Mem))
  | [] => pure []
  | dst :: dsts => do
    let line ← vfsReadline fd (some dst) lenMax
    let lines ← readlines fd lenMax dsts
    pure (line :: lines)

/-- What a line that was read looks like: its length with the terminator, and its bytes in the
buffer. -/
def asLine (dst : Mem) (line : List UInt8) : Int × Option Mem :=
  ((line.length + 1 : ℕ),some (put dst 0 (line ++ [0])))

section Reading

variable {s : State W} {tcb : W.Task} {fd : Int} {filp : Fd}
  {read : Nat → FileView W → W.Drv → FileAns W} {content : List UInt8} {At : ℕ → State W → Prop}
  {p : ℕ}

/-- The position moves with the bytes that are read. -/
theorem Serves.afterReads (h : Serves fd filp read content At) (hat : At p s) {k : ℕ}
    (hk : k = 0 ∨ p + k ≤ content.length) : At (p + k) (s.afterReads filp read k) := by
  induction k with
  | zero => exact hat
  | succ k ih =>
    have hle := hk.resolve_left (Nat.succ_ne_zero k)
    exact (h.byte (p + k) _ (by omega) (ih (Or.inr (by omega)))).2

theorem lineAt_length_le (content : List UInt8) (p : ℕ) :
    (lineAt content p).length = 0 ∨ p + (lineAt content p).length ≤ content.length := by
  have hle : (lineAt content p).length ≤ (content.drop p).length :=
    (List.takeWhile_prefix _).length_le
  rw [List.length_drop] at hle
  omega

theorem Serves.beginsWith (h : Serves fd filp read content At) (hat : At p s) {n : ℕ} :
    BeginsWith (s.answer filp read) ((lineAt content p).take n) := by
  intro j hj
  have hlen : j < (lineAt content p).length := lt_of_lt_of_le hj (List.length_take_le' n _)
  have hle := (lineAt_length_le content p).resolve_left (by omega)
  have hbyte : (lineAt content p)[j] = content[p + j] := by
    have hpre := (List.takeWhile_prefix (!isEol ·) (l := content.drop p)).getElem hlen
    rw [List.getElem_drop] at hpre
    exact hpre
  rw [List.getElem_take,hbyte]
  refine ⟨(h.byte (p + j) _ (by omega) (h.afterReads hat (Or.inr (by omega)))).1,?_⟩
  rw [← hbyte]
  have hmem := List.all_eq_true.mp List.all_takeWhile _ (List.getElem_mem hlen)
  simpa using hmem

/-- What is ahead is the last line, or a line, the byte that ends it and the rest. -/
theorem drop_eq_line (content : List UInt8) (p : ℕ) :
    (content.drop p = lineAt content p ∧ content.length ≤ p + (lineAt content p).length) ∨
    ∃ b,isEol b ∧ content[p + (lineAt content p).length]? = some b ∧
      content.drop p = lineAt content p ++ b :: content.drop (p + (lineAt content p).length + 1) := by
  have happ : lineAt content p ++ (content.drop p).dropWhile (!isEol ·) = content.drop p :=
    List.takeWhile_append_dropWhile
  cases hrest : (content.drop p).dropWhile (!isEol ·) with
  | nil =>
    rw [hrest,List.append_nil] at happ
    have hlen := congrArg List.length happ
    rw [List.length_drop] at hlen
    exact Or.inl ⟨happ.symm,by omega⟩
  | cons b rest =>
    rw [hrest] at happ
    have hb := List.head?_dropWhile_not (!isEol ·) (content.drop p)
    rw [hrest] at hb
    have hat : content[p + (lineAt content p).length]? = some b := by
      rw [← List.getElem?_drop,← happ,List.getElem?_append_right (le_refl _),Nat.sub_self]
      rfl
    have hdrop : content.drop (p + (lineAt content p).length + 1) = rest := by
      rw [Nat.add_assoc,← List.drop_drop,← happ,List.drop_append]
      simp
    refine Or.inr ⟨b,by simpa using hb,hat,?_⟩
    rw [hdrop,happ]

/-- The answer after the bytes of a line ends it. -/
theorem Serves.ends (h : Serves fd filp read content At) (hat : At p s) :
    (s.answer filp read (lineAt content p).length).Ends ∧
      (s.answer filp read (lineAt content p).length).Proper ∧
      At (p + (lineAt content p).length +
          if p + (lineAt content p).length < content.length then 1 else 0)
        (s.afterReads filp read ((lineAt content p).length + 1)) := by
  have hreads := h.afterReads hat (lineAt_length_le content p)
  rcases drop_eq_line content p with ⟨_,hle⟩ | ⟨b,heol,hb,_⟩
  · obtain ⟨hzero,hdata,hkeep⟩ := h.eof _ _ hle hreads
    rw [if_neg (not_lt.mpr hle)]
    exact ⟨Or.inl hzero,Or.inr ⟨le_of_eq hzero,hdata⟩,hkeep⟩
  · obtain ⟨hlt,hget⟩ := List.getElem?_eq_some_iff.mp hb
    obtain ⟨hbyte,hnext⟩ := h.byte _ _ hlt hreads
    rw [hget] at hbyte
    rw [if_pos hlt]
    exact ⟨Or.inr ⟨b,hbyte,heol⟩,Or.inl ⟨b,hbyte⟩,hnext⟩

/-- A line that fits. -/
theorem Serves.line (h : Serves fd filp read content At) (hat : At p s) (tcb : W.Task) (dst : Mem)
    {lenMax : ℕ} (hfits : (lineAt content p).length < lenMax) :
    ∃ s',(vfsReadline fd (some dst) lenMax).run (Action.exec tcb) s =
        some (asLine dst (lineAt content p),s') ∧
      At (p + (lineAt content p).length +
        if p + (lineAt content p).length < content.length then 1 else 0) s' := by
  obtain ⟨left,rfl⟩ : ∃ left,lenMax = (lineAt content p).length + (left + 1) :=
    ⟨lenMax - (lineAt content p).length - 1,by omega⟩
  obtain ⟨hends,hproper,hnext⟩ := h.ends hat
  have hbytes := h.beginsWith hat (n := (lineAt content p).length)
  rw [List.take_length] at hbytes
  rw [vfsReadline_run (h.reader p s hat),readlineOf_ends hbytes hproper hends]
  refine ⟨_,?_,hnext⟩
  dsimp only
  rw [if_neg (Nat.succ_ne_zero left)]
  rfl

/-- A line that does not fit. -/
theorem Serves.tooLong (h : Serves fd filp read content At) (hat : At p s) (tcb : W.Task)
    (dst : Mem) {lenMax : ℕ} (hlong : lenMax ≤ (lineAt content p).length) :
    ∃ s',(vfsReadline fd (some dst) lenMax).run (Action.exec tcb) s =
        some ((-E2BIG,some (put dst 0 ((lineAt content p).take lenMax))),s') ∧
      At (p + lenMax) s' := by
  have hlen : ((lineAt content p).take lenMax).length = lenMax := List.length_take_of_le hlong
  have hfull : readlineOf (s.answer filp read) _ dst 0 = _ :=
    readlineOf_full (h.beginsWith hat (n := lenMax))
  rw [hlen] at hfull
  rw [vfsReadline_run (h.reader p s hat),hfull]
  have hle := lineAt_length_le content p
  exact ⟨_,rfl,h.afterReads hat (by omega)⟩

/-- Lines that all fit are read one after the other, to the end of the file. -/
theorem Serves.lines (h : Serves fd filp read content At) (tcb : W.Task) {lenMax : ℕ}
    {dsts : List Mem} (hat : At p s) (hp : p ≤ content.length)
    (hfit : ∀ line ∈ (content.drop p).splitOnP isEol,line.length < lenMax)
    (hdsts : dsts.length = ((content.drop p).splitOnP isEol).length) :
    ∃ s',(readlines fd lenMax dsts).run (Action.exec tcb) s =
        some (List.zipWith asLine dsts ((content.drop p).splitOnP isEol),s') ∧
      At content.length s' := by
  induction dsts generalizing p s with
  | nil =>
    have hne := List.splitOnP_ne_nil isEol (content.drop p)
    exact absurd (List.length_eq_zero_iff.mp hdsts.symm) hne
  | cons dst dsts ih =>
    have hno : ∀ b ∈ lineAt content p,isEol b = false := by
      intro b hb
      have hmem := List.all_eq_true.mp List.all_takeWhile b hb
      simpa using hmem
    rcases drop_eq_line content p with ⟨hlast,hle⟩ | ⟨b,heol,hb,hmore⟩
    · rw [hlast,List.splitOnP_eq_singleton hno] at hfit hdsts ⊢
      obtain ⟨s',hrun,hnext⟩ := h.line hat tcb dst (hfit _ (List.mem_singleton_self _))
      obtain rfl : dsts = [] := List.length_eq_zero_iff.mp (Nat.succ_inj.mp hdsts)
      have hend : p + (lineAt content p).length = content.length := by
        have hlen := lineAt_length_le content p
        omega
      rw [if_neg (not_lt.mpr hle),Nat.add_zero,hend] at hnext
      refine ⟨s',?_,hnext⟩
      simp only [readlines,Prog.run_bind hrun]
      rfl
    · obtain ⟨hlt,_⟩ := List.getElem?_eq_some_iff.mp hb
      rw [hmore,List.splitOnP_append_cons_of_forall_mem hno b heol] at hfit hdsts ⊢
      obtain ⟨s₁,hrun,hnext⟩ := h.line hat tcb dst (hfit _ List.mem_cons_self)
      rw [if_pos hlt] at hnext
      obtain ⟨s',hrest,hend⟩ := ih hnext (by omega)
        (fun line hline => hfit line (List.mem_cons_of_mem _ hline)) (Nat.succ_inj.mp hdsts)
      refine ⟨s',?_,hend⟩
      simp only [readlines,Prog.run_bind hrun,Prog.run_bind hrest]
      rfl

end Reading

/-- What `vfs_readline` makes of a file. -/
structure ReadsLines (tcb : W.Task) (fd : Int) (content : List UInt8) (At : ℕ → State W → Prop) :
    Prop where
  fits : ∀ p s dst lenMax,At p s → (lineAt content p).length < lenMax →
    ∃ s',(vfsReadline fd (some dst) lenMax).run (Action.exec tcb) s =
        some (asLine dst (lineAt content p),s') ∧
      At (p + (lineAt content p).length +
        if p + (lineAt content p).length < content.length then 1 else 0) s'
  tooLong : ∀ p s dst lenMax,At p s → lenMax ≤ (lineAt content p).length →
    ∃ s',(vfsReadline fd (some dst) lenMax).run (Action.exec tcb) s =
        some ((-E2BIG,some (put dst 0 ((lineAt content p).take lenMax))),s') ∧
      At (p + lenMax) s'
  bounded : ∀ p s dst lenMax,At p s →
    ∃ r out s',(vfsReadline fd (some dst) lenMax).run (Action.exec tcb) s =
        some ((r,some out),s') ∧ ∀ a,lenMax ≤ a → out a = dst a
  lines : ∀ p s lenMax (dsts : List Mem),At p s → p ≤ content.length →
    (∀ line ∈ (content.drop p).splitOnP isEol,line.length < lenMax) →
    dsts.length = ((content.drop p).splitOnP isEol).length →
    ∃ s',(readlines fd lenMax dsts).run (Action.exec tcb) s =
        some (List.zipWith asLine dsts ((content.drop p).splitOnP isEol),s') ∧
      At content.length s'

/-- A file that is read byte by byte without errors is read line by line without losing
anything. -/
theorem readline_lines {fd : Int} {filp : Fd} {read : Nat → FileView W → W.Drv → FileAns W}
    {content : List UInt8} {At : ℕ → State W → Prop} (h : Serves fd filp read content At)
    (tcb : W.Task) : ReadsLines tcb fd content At where
  fits := fun _ _ dst _ hat hfits => h.line hat tcb dst hfits
  tooLong := fun _ _ dst _ hat hlong => h.tooLong hat tcb dst hlong
  bounded := by
    intro p s dst lenMax hat
    by_cases hfits : (lineAt content p).length < lenMax
    · obtain ⟨s',hrun,_⟩ := h.line hat tcb dst hfits
      exact ⟨_,_,s',hrun,fun a ha => put_outside (by simp; omega)⟩
    · obtain ⟨s',hrun,_⟩ := h.tooLong hat tcb dst (Nat.le_of_not_lt hfits)
      exact ⟨_,_,s',hrun,fun a ha => put_outside (by simp; omega)⟩
  lines := fun _ _ _ _ hat hp hfit hdsts => h.lines tcb hat hp hfit hdsts

section Demo

abbrev ReadWorld : World :=
  ⟨Unit,Unit,Unit,Unit,Unit,id,(),inferInstance,inferInstance,inferInstance,inferInstance,
    inferInstance,inferInstance⟩

/-- `f` tells what a read of one byte gives at a position. -/
def readOneByte (f : ℕ → Int × List UInt8) (_ : Nat) (view : FileView ReadWorld) (drv : Unit) :
    FileAns ReadWorld :=
  let (res,data) := f view.pos.toNat
  ⟨res,data,Stat.zero,view.pos + res.toNat,view.priv,drv⟩

/-- A driver that can only read. -/
def oneByteOps (f : ℕ → Int × List UInt8) : FileOps ReadWorld where
  open_ := none
  close := none
  fstat := none
  lseek := none
  read := some (readOneByte f)
  write := none
  fsync := none

/-- All descriptors are open for reading. -/
def readOnly (f : ℕ → Int × List UInt8) : State ReadWorld where
  mounts _ := ⟨none,none,0,0⟩
  mountsList := ⟨none,fun _ => none⟩
  files _ := ⟨some (oneByteOps f),none,O_RDONLY,0,some (),()⟩
  dirs _ := ⟨none,none,()⟩
  drv := ()
  mountMutex := 0
  openMutex := 0
  calls := []

/-- The bytes of a file. -/
def bytesOf (content : List UInt8) (p : ℕ) : Int × List UInt8 :=
  match content[p]? with
  | some b => (1,[b])
  | none => (0,[])

/-- The first descriptor is open for reading and stands at a position. -/
def AtPos (content : List UInt8) (p : ℕ) (s : State ReadWorld) : Prop :=
  s.files 0 = ⟨some (oneByteOps (bytesOf content)),none,O_RDONLY,p,some (),()⟩

theorem bytesOf_serves (content : List UInt8) :
    Serves 0 0 (readOneByte (bytesOf content)) content (AtPos content) where
  reader := by
    intro p s hat
    have hat' : s.files 0 = _ := hat
    exact reader_of_file rfl (by rw [hat']) (by rw [hat']) (by rw [hat']) rfl
  byte := by
    intro p s h hat
    have hat' : s.files 0 = _ := hat
    have hb : bytesOf content p = (1,[content[p]]) := by simp [bytesOf,h]
    constructor
    · simp [fileCallback,hat',File.view,readOneByte,hb,FileRet.Delivers]
    · simp [AtPos,fileCallback,State.modifyFile,State.returned,hat',File.view,readOneByte,hb]
  eof := by
    intro p s h hat
    have hat' : s.files 0 = _ := hat
    have hb : bytesOf content p = (0,[]) := by simp [bytesOf,h]
    refine ⟨?_,?_,?_⟩
    · simp [fileCallback,hat',File.view,readOneByte,hb]
    · simp [fileCallback,hat',File.view,readOneByte,hb]
    · simp [AtPos,fileCallback,State.modifyFile,State.returned,hat',File.view,readOneByte,hb]

/-- The file "a\nb". -/
theorem readline_lines_twoLines :
    ReadsLines () 0 [0x61,0x0a,0x62] (AtPos [0x61,0x0a,0x62]) ∧
      AtPos [0x61,0x0a,0x62] 0 (readOnly (bytesOf [0x61,0x0a,0x62])) :=
  ⟨readline_lines (bytesOf_serves [0x61,0x0a,0x62]) (),rfl⟩

/-- Nothing but errors. -/
def onlyErrors (_ : ℕ) : Int × List UInt8 := (- EIO,[])

theorem onlyErrors_proper (k : ℕ) :
    ((readOnly onlyErrors).answer 0 (readOneByte onlyErrors) k).Proper :=
  Or.inr ⟨show - EIO ≤ 0 by decide,Nat.zero_le 1⟩

theorem readline_errors_only :
    ∃ r out made,(vfsReadline 0 (some fun _ => 1) 10).run (Action.exec ()) (readOnly onlyErrors) =
        some ((r,some out),(readOnly onlyErrors).afterReads 0 (readOneByte onlyErrors) made) ∧
      (ErrorsShow ((readOnly onlyErrors).answer 0 (readOneByte onlyErrors)) made r out ↔
        NoErrorInLine ((readOnly onlyErrors).answer 0 (readOneByte onlyErrors)) 10) := by
  have hreader : (readOnly onlyErrors).reader 0 = some (0,readOneByte onlyErrors) :=
    reader_of_file rfl rfl rfl rfl rfl
  have h := (readline_errors () (readOnly onlyErrors) 0 10).2 (fun _ => 1) 0
    (readOneByte onlyErrors) hreader onlyErrors_proper
  exact h

/-- An `'a'` and then nothing but errors. -/
def oneThenErrors (p : ℕ) : Int × List UInt8 := if p = 0 then (1,[0x61]) else (- EIO,[])

/-- A first read that fails makes `vfs_readline` return 0; a later one makes it return the number
of bytes, with no terminator. -/
theorem read_error_as_line :
    ((vfsReadline 0 (some fun _ => 1) 10).run (Action.exec ()) (readOnly onlyErrors)).map
      (fun v => (v.1.1,v.2.calls.map fun | .file _ _ res => res | _ => 0)) = some (0,[- EIO]) ∧
    ((vfsReadline 0 (some fun _ => 1) 10).run (Action.exec ()) (readOnly oneThenErrors)).map
      (fun v => (v.1.1,v.1.2.map (· 0),v.2.calls.map fun | .file _ _ res => res | _ => 0)) =
        some (1,some 0x61,[- EIO,1]) := by
  decide

end Demo

end UcVfs
