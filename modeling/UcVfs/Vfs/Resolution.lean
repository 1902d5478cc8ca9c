import UcVfs.Framework.LastMax
import UcVfs.Vfs.MountList

/-!
# Mount resolution

`_find_mount` selects the longest matching mount point, the last one mounted among equals.
-/

namespace UcVfs

open Framework

variable {W : World}

/-- The mount point `p` matches `name`. -/
def CStr.Matches (p name : CStr) : Prop :=
  (p = root ∧ name.at_ 0 = '/') ∨
  (p.chars <+: name.chars ∧ (name.at_ p.length = '/' ∨ name.length = p.length))

instance (p name : CStr) : Decidable (p.Matches name) := by
  unfold CStr.Matches
  infer_instance

/-- The mount point of the object matches `name`. -/
def State.Matches (s : State W) (name : CStr) (m : W.Mnt) : Prop :=
  ∃ p ∈ (s.mounts m).mountPoint,p.Matches name

instance (s : State W) (name : CStr) : DecidablePred (s.Matches name) := by
  intro m
  unfold State.Matches
  infer_instance

/-- The length of the mount point. -/
def State.pointLength (s : State W) (m : W.Mnt) : Nat :=
  ((s.mounts m).mountPoint.map CStr.length).getD 0

theorem CStr.at_length (p : CStr) : p.at_ p.length = nul := by
  simp [at_,length]

theorem CStr.at_eq_nul {p : CStr} {n : Nat} (hn : n ≤ p.length) :
    p.at_ n = nul ↔ p.length = n := by
  constructor
  · intro h
    by_contra hne
    have hlt : n < p.chars.length := by
      change ¬p.chars.length = n at hne
      change n ≤ p.chars.length at hn
      omega
    apply p.noNul
    have hget : p.chars[n] = nul := by simpa [at_,hlt] using h
    rw [← hget]
    exact List.getElem_mem hlt
  · intro h
    rw [← h]
    exact p.at_length

theorem CStr.strncmpEq_length {name p : CStr} (hlen : p.length ≤ name.length) :
    name.strncmpEq p p.length = true ↔ p.chars <+: name.chars := by
  have hlen' : p.chars.length ≤ name.chars.length := hlen
  rw [strncmpEq,beq_iff_eq,length,List.take_append_of_le_length hlen',
    List.take_append_of_le_length le_rfl,List.take_length,List.prefix_iff_eq_take]
  exact eq_comm

theorem CStr.eq_root {p : CStr} (h : p.at_ 0 = '/') (hlen : p.length ≤ 1) : p = root := by
  obtain ⟨cs,hcs⟩ := p
  cases cs with
  | nil => simp [at_,nul] at h
  | cons c cs =>
    have hnil : cs = [] := by simpa [length] using hlen
    obtain rfl : c = '/' := by simpa [at_] using h
    subst hnil
    rfl

/-- The tests of one round accept exactly the matching mount points. -/
theorem CStr.matches_iff {name p : CStr} (hp : p.at_ 0 = '/') :
    p.Matches name ↔ p.length ≤ name.length ∧
      ¬(p.length > 1 ∧ name.at_ p.length ≠ '/' ∧ name.at_ p.length ≠ nul) ∧
      name.strncmpEq p p.length = true := by
  by_cases hlen : p.length ≤ name.length
  · rw [strncmpEq_length hlen,Matches,← at_eq_nul hlen]
    by_cases hroot : p.length ≤ 1
    · obtain rfl := eq_root hp hroot
      have hone : root.length = 1 := rfl
      have hslash : root.chars <+: name.chars ↔ name.at_ 0 = '/' := by
        cases hn : name.chars with
        | nil =>
          have hzero : name.length = 0 := by simp [length,hn]
          omega
        | cons c cs => simp [root,at_,hn,eq_comm]
      simp [hone,hslash]
      tauto
    · have hne : p ≠ root := by
        rintro rfl
        exact hroot le_rfl
      have hlong : p.length > 1 := by omega
      simp [hlen,hne,hlong]
      tauto
  · have hno : ¬p.chars <+: name.chars := fun h => hlen h.length_le
    simp only [hlen,false_and,iff_false,Matches,hno,or_false]
    rintro ⟨rfl,hslash⟩
    apply hlen
    cases hn : name.chars with
    | nil => simp [at_,hn,nul] at hslash
    | cons c cs => simp [length,root,hn]

/-- The locals of the search when `best` is the mount selected so far. -/
def FindAcc.of (mounts : W.Mnt → Mount W) (best : Option W.Mnt) : FindAcc W where
  mountp := best
  longestMatch := match best with
    | none => 0
    | some m => if (mounts m).mountPointLen > 1 then (mounts m).mountPointLen else 0

section Search

variable {s : State W} {xs : List W.Mnt}

theorem State.Listed.point (h : s.Listed xs) {m : W.Mnt} (hm : m ∈ xs) :
    ∃ p,(s.mounts m).mountPoint = some p ∧ p.at_ 0 = '/' ∧
      (s.mounts m).mountPointLen = p.length ∧ s.pointLength m = p.length ∧ 0 < p.length := by
  obtain ⟨p,hp,hlen⟩ := h.accepted m hm
  obtain ⟨_,hpoint,hslash⟩ := Mount.accepted_eq_some.mp hp
  refine ⟨p,hpoint,hslash,hlen,by simp [State.pointLength,hpoint],?_⟩
  by_contra hzero
  have hnul := (CStr.at_eq_nul (p := p) (Nat.zero_le _)).mpr (by omega)
  rw [hslash] at hnul
  exact absurd hnul (by decide)

/-- One round selects the new mount if it matches and is not shorter. -/
theorem findMountRound_of {name : CStr} {it : W.Mnt} {best : Option W.Mnt} {p : CStr}
    (hpoint : (s.mounts it).mountPoint = some p) (hslash : p.at_ 0 = '/')
    (hlen : (s.mounts it).mountPointLen = p.length) (hpos : 0 < p.length) :
    findMountRound s.mounts name (.of s.mounts best) it = .ok (.of s.mounts
      (if p.Matches name then
        match best with
        | none => some it
        | some b => if p.length < (s.mounts b).mountPointLen then some b else some it
      else best)) := by
  by_cases hm : p.Matches name
  · obtain ⟨hle,hsep,hcmp⟩ := (CStr.matches_iff hslash).mp hm
    have hle' : ¬p.length > name.length := by omega
    cases best with
    | none =>
      simp [findMountRound,FindAcc.of,hpoint,hlen,hm,hsep,hle',hcmp]
    | some b =>
      by_cases hlt : p.length < (s.mounts b).mountPointLen
      · have hlong : (s.mounts b).mountPointLen > 1 := by omega
        simp [findMountRound,FindAcc.of,hlen,hm,hlt,hlong]
      · have hskip : ¬p.length < if (s.mounts b).mountPointLen > 1 then
            (s.mounts b).mountPointLen else 0 := by
          split <;> omega
        simp only [findMountRound,FindAcc.of,hpoint,hlen,hm,hlt,hskip,hsep,hle',hcmp,if_true,
          if_false]
        by_cases hone : p.length > 1
        · simp only [hone,if_true]
        · have hb : ¬(s.mounts b).mountPointLen > 1 := by omega
          simp only [hone,hb,if_false]
  · have hno := mt (CStr.matches_iff hslash).mpr hm
    simp only [findMountRound,hpoint,hlen,hm,if_false]
    split
    · rfl
    split
    · rfl
    split
    · rfl
    split
    · rename_i hle hsep hcmp
      exact absurd ⟨by omega,hsep,hcmp⟩ hno
    · rfl

/-- The search over the list finds the last mount of the greatest length. -/
theorem findMount_fold (name : CStr)
    (h : ∀ m ∈ xs,∃ p,(s.mounts m).mountPoint = some p ∧ p.at_ 0 = '/' ∧
      (s.mounts m).mountPointLen = p.length ∧ s.pointLength m = p.length ∧ 0 < p.length) :
    xs.foldlM (findMountRound s.mounts name) (.of s.mounts none) =
      .ok (.of s.mounts (lastMax s.pointLength (s.Matches name) xs)) := by
  induction xs using List.reverseRecOn with
  | nil => rfl
  | append_singleton xs it ih =>
    obtain ⟨p,hpoint,hslash,hlen,hkey,hpos⟩ := h it (by simp)
    have hxs : ∀ m ∈ xs,∃ p,_ := fun m hm => h m (by simp [hm])
    have hmatch : s.Matches name it ↔ p.Matches name := by simp [State.Matches,hpoint]
    rw [List.foldlM_append,ih hxs]
    change [it].foldlM (findMountRound s.mounts name) _ = _
    rw [List.foldlM_cons,findMountRound_of hpoint hslash hlen hpos,lastMax_snoc]
    simp only [hmatch,hkey]
    cases hb : lastMax s.pointLength (s.Matches name) xs with
    | none => rfl
    | some b =>
      obtain ⟨_,_,_,hlenb,hkeyb,_⟩ := hxs b (lastMax_spec hb).mem
      simp only [hlenb,hkeyb]
      rfl

end Search

/-- What a search that returns 0 has done: `m` matches, no matching mount is longer and none
as long was mounted later; only its counter went up; and the mount point followed by the path
is the name, except that "/" is not taken off. -/
structure Resolved (s s' : State W) (xs : List W.Mnt) (name : CStr) (m : W.Mnt)
    (relPath : CStr) : Prop where
  selected : IsLastMax s.pointLength (s.Matches name) xs m
  pinned : s' = s.pin m
  absolute : ∀ fs,(s.mounts m).fs = some fs → fs.flags &&& VFS_FS_FLAG_WANT_ABS_PATH ≠ 0 →
    relPath = name
  relative : ∀ fs p,(s.mounts m).fs = some fs → (s.mounts m).mountPoint = some p →
    fs.flags &&& VFS_FS_FLAG_WANT_ABS_PATH = 0 →
    (1 < p.length → p.chars ++ relPath.chars = name.chars) ∧ (p = CStr.root → relPath = name)

theorem CStr.Matches.append_drop {p name : CStr} (h : p.Matches name) (hlen : 1 < p.length) :
    p.chars ++ (name.drop p.length).chars = name.chars := by
  rcases h with ⟨rfl,_⟩ | ⟨hpre,_⟩
  · exact absurd hlen (by decide)
  · obtain ⟨t,ht⟩ := hpre
    simp [drop,length,← ht]

theorem findMount_resolved {s : State W} {xs : List W.Mnt} (h : s.Listed xs) (tcb : W.Task)
    {name : CStr} {m : W.Mnt} (hm : lastMax s.pointLength (s.Matches name) xs = some m) :
    ∃ relPath s',(findMount name).run (Action.exec tcb) s = some (.ok (m,relPath),s') ∧
      Resolved s s' xs name m relPath := by
  have hmax := lastMax_spec hm
  obtain ⟨p,hpoint,hslash,hlen,hkey,hpos⟩ := h.point hmax.mem
  have hmatch : p.Matches name := by
    obtain ⟨q,hq,hmq⟩ := hmax.holds
    obtain rfl : p = q := by simpa [hpoint] using hq
    exact hmq
  have hfold := findMount_fold (s := s) name fun n hn => h.point hn
  rw [hm] at hfold
  have hexec : (Action.findMount name).exec tcb s =
      some (.ok (m,if p.length > 1 then p.length else 0),s.pin m) := by
    change findMountBody name s = _
    rw [findMountBody_eq h hfold]
    simp [FindAcc.of,hlen]
  obtain ⟨q,hq,_⟩ := h.accepted m hmax.mem
  obtain ⟨fs,hfs⟩ := Option.isSome_iff_exists.mp (Mount.accepted_eq_some.mp hq).1
  have hfs' : ((s.pin m).mounts m).fs = some fs := by simp [State.pin,State.modifyMount,hfs]
  have hget : (Action.fs m).exec tcb (s.pin m) = some (some fs,s.pin m) := by
    simp [Action.exec,hfs']
  simp only [findMount,act,Prog.act_bind,Prog.run_step hexec,mountFs,Prog.step_bind,
    Prog.run_step hget,Prog.pure_eq,Prog.ret_bind]
  by_cases habs : fs.flags &&& VFS_FS_FLAG_WANT_ABS_PATH = 0
  · refine ⟨name.drop (if p.length > 1 then p.length else 0),s.pin m,by simp [habs,Prog.run],
      hmax,rfl,?_,?_⟩
    · intro fs' hfs' hflag
      obtain rfl : fs = fs' := by simpa [hfs] using hfs'
      exact absurd habs hflag
    · intro fs' p' _ hp' _
      obtain rfl : p = p' := by simpa [hpoint] using hp'
      constructor
      · intro hlong
        rw [if_pos hlong]
        exact hmatch.append_drop hlong
      · rintro rfl
        rfl
  · refine ⟨name,s.pin m,by simp [habs,Prog.run],hmax,rfl,fun _ _ _ => rfl,?_⟩
    intro fs' p' hfs' _ hflag
    obtain rfl : fs = fs' := by simpa [hfs] using hfs'
    exact absurd hflag habs

theorem findMount_missed {s : State W} {xs : List W.Mnt} (h : s.Listed xs) (tcb : W.Task)
    {name : CStr} (hno : ∀ m ∈ xs,¬s.Matches name m) :
    (findMount name).run (Action.exec tcb) s = some (.error (-ENOENT),s) := by
  have hnone := (lastMax_eq_none s.pointLength (s.Matches name)).mpr hno
  have hfold := findMount_fold (s := s) name fun n hn => h.point hn
  rw [hnone] at hfold
  have hexec : (Action.findMount name).exec tcb s = some (.error (-ENOENT),s) :=
    findMountBody_eq h hfold
  simp only [findMount,act,Prog.act_bind,Prog.run_step hexec]
  rfl

/-- `_find_mount` fails and changes nothing, or pins a mount of the list. -/
theorem findMount_outcome {s : State W} {xs : List W.Mnt} (h : s.Listed xs) (tcb : W.Task)
    (name : CStr) :
    (findMount name).run (Action.exec tcb) s = some (.error (-ENOENT),s) ∨
    ∃ m ∈ xs,∃ relPath,
      (findMount name).run (Action.exec tcb) s = some (.ok (m,relPath),s.pin m) := by
  cases hm : lastMax s.pointLength (s.Matches name) xs with
  | none => exact Or.inl (findMount_missed h tcb ((lastMax_eq_none _ _).mp hm))
  | some m =>
    obtain ⟨relPath,s',hrun,hres⟩ := findMount_resolved h tcb hm
    rw [hres.pinned] at hrun
    exact Or.inr ⟨m,(lastMax_spec hm).mem,relPath,hrun⟩

/-- `_find_mount` selects `m` for this name and leaves this path below it. -/
def Selects (tcb : W.Task) (s : State W) (name : CStr) (m : W.Mnt) (relPath : CStr) : Prop :=
  (findMount name).run (Action.exec tcb) s = some (.ok (m,relPath),s.pin m)

theorem Selects.unique {tcb : W.Task} {s : State W} {name : CStr} {m m' : W.Mnt} {relPath relPath' : CStr}
    (h : Selects tcb s name m relPath) (h' : Selects tcb s name m' relPath') :
    m = m' ∧ relPath = relPath' := by
  have he := h.symm.trans h'
  simp only [Option.some.injEq,Prod.mk.injEq,Except.ok.injEq] at he
  exact he.1

theorem not_selects {tcb : W.Task} {s : State W} {name : CStr} {m : W.Mnt} {relPath : CStr}
    (hmiss : (findMount name).run (Action.exec tcb) s = some (.error (-ENOENT),s)) :
    ¬Selects tcb s name m relPath := by
  intro h
  have he := hmiss.symm.trans h
  simp at he

/-- For every list that mounts and unmounts can make and every name, `_find_mount` fails and
changes nothing when no mount matches, and else finds the last of the longest ones. -/
theorem longest_prefix {s₀ s : State W} {log : List (MountCall W × Int)}
    (h₀ : s₀.mountsList.head = none) (h : MountHistory s₀ log s) (tcb : W.Task) (name : CStr) :
    ((∀ m ∈ mountedBy log,¬s.Matches name m) →
      (findMount name).run (Action.exec tcb) s = some (.error (-ENOENT),s)) ∧
    ((∃ m ∈ mountedBy log,s.Matches name m) →
      ∃ m relPath s',(findMount name).run (Action.exec tcb) s = some (.ok (m,relPath),s') ∧
        Resolved s s' (mountedBy log) name m relPath) := by
  have hlisted := h.listed h₀
  constructor
  · exact findMount_missed hlisted tcb
  · intro hsome
    cases hm : lastMax s.pointLength (s.Matches name) (mountedBy log) with
    | none =>
      obtain ⟨m,hmem,hmatch⟩ := hsome
      exact absurd hmatch ((lastMax_eq_none _ _).mp hm m hmem)
    | some m =>
      obtain ⟨relPath,s',hrun,hres⟩ := findMount_resolved hlisted tcb hm
      exact ⟨m,relPath,s',hrun,hres⟩

/-- `/b`, `/a/c`, `/a/b/c` and `/ab/c`. -/
def nestedName : Fin 4 → CStr
  | 0 => CStr.ofList ['/','b']
  | 1 => CStr.ofList ['/','a','/','c']
  | 2 => CStr.ofList ['/','a','/','b','/','c']
  | 3 => CStr.ofList ['/','a','b','/','c']

/-- The mount `i` is the longest match of its name. -/
def NestedMatch (s : State nested) (i : Fin 4) : Prop :=
  s.Matches (nestedName i) (nestedMnt i) ∧ ∀ m : nested.Mnt,s.Matches (nestedName i) m →
    s.pointLength (nestedMnt i) ≤ s.pointLength m → m = nestedMnt i

instance (s : State nested) : DecidablePred (NestedMatch s) := by
  intro i
  unfold NestedMatch
  infer_instance

/-- Names below each of the mounts on `/`, `/a`, `/a/b` and `/ab`. -/
theorem longest_prefix_nested : ∃ s : State nested,∀ i : Fin 4,∃ relPath s',
    (findMount (nestedName i)).run (Action.exec nestedTask) s =
      some (.ok (nestedMnt i,relPath),s') ∧
    Resolved s s' [nestedMnt 2,nestedMnt 0,nestedMnt 3,nestedMnt 1] (nestedName i) (nestedMnt i)
      relPath := by
  have hrun : (runMounts nestedTask nestedMounts ([],nestedState)).any (fun v =>
      decide (mountedBy v.1 = [nestedMnt 2,nestedMnt 0,nestedMnt 3,nestedMnt 1] ∧
        ∀ i,NestedMatch v.2 i)) = true := by decide
  obtain ⟨⟨log,s⟩,hruns,hv⟩ := (Option.any_eq_true _ _).mp hrun
  obtain ⟨hlog,hmatch⟩ := of_decide_eq_true hv
  have hall : ∀ i,nestedMnt i ∈ [nestedMnt 2,nestedMnt 0,nestedMnt 3,nestedMnt 1] := by decide
  refine ⟨s,?_⟩
  intro i
  obtain ⟨hi,hlongest⟩ := hmatch i
  have hmem : nestedMnt i ∈ mountedBy log := hlog ▸ hall i
  have hgood := longest_prefix rfl (MountHistory.start.runs hruns) nestedTask (nestedName i)
  obtain ⟨m,relPath,s',hfind,hres⟩ := hgood.2 ⟨nestedMnt i,hmem,hi⟩
  obtain rfl := hlongest m hres.selected.holds (hres.selected.le _ hmem hi)
  rw [hlog] at hres
  exact ⟨relPath,s',hfind,hres⟩

end UcVfs
