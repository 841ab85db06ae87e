import FoxTrader.StateDirLock

/-! # Hot-swaps under way

    While a node swaps within its directory the lock is never let go of: the new ensemble holds a duplicate
    before the old one is freed, or is refused because the old one holds it (`handover_gapless`).

    `oms.ezoo_refs` is written at boot and never again. `ezooRef_live_iff` says that the ensemble it names
    is there exactly as long as no swap of its node has been completed. -/

namespace FoxTrader

open Lib

namespace StateDirs

/-! ### Whose descriptors a step takes -/

/-- The ensembles a step may free. -/
def Frees : DirStep → Place → Prop
  | .swapBind a _, x => x = (a, .shadow)
  | .swapVerdict a _, x => x = (a, .shadow)
  | .swapRetire a, x => x = (a, .retired)
  | .exit process, x => x.1.1 = process
  | _, _ => False

variable {s : StateDirs} {a b : Party} {x : Place} {c : DirStep} {d : ℕ}

/-- A descriptor stays that is kept by an ensemble the step does not free. -/
theorem Inv.survives (h : s.Inv) (hadm : s.Admitted c) {e : LockDescriptor} (he : e ∈ s.table)
    (hx : keeps s.nodes x = some e.key) (hc : ¬Frees c x) : e ∈ (s.step c).table := by
  cases c with
  | appear stat => exact he
  | save b => exact he
  | boot b dir opened mismatch =>
    obtain ⟨hserved, -, -, hopened⟩ := hadm
    have hkeeps : keeps s.nodes (b, .served) = none := by
      simp [keeps, keyOf, zooOf, hserved]
    have hne : x ≠ (b, .served) := by
      rintro rfl
      rw [hkeeps] at hx
      cases hx
    have hkey : keeps s.nodes (b, .served) = keyOf b.1 (some (.init s.serial)) := hkeeps
    obtain ⟨hclaims, hkept, -⟩ := bind_claims s.stat dir h.claims hkey rfl hopened fun fd hfd =>
      absurd hfd (Option.some_ne_none fd).symm
    have hbound := hkept x e hne he hx
    simp only [StateDirs.step, StateDirs.boot]
    split
    · refine (unlock_claims hclaims (Function.update_self ..)).2 x e hne hbound ?_
      rw [Function.update_of_ne hne]
      exact hx
    · exact hbound
  | swapLoad b newPath loads =>
    simp only [StateDirs.step, StateDirs.swapLoad]
    split_ifs <;> exact he
  | swapHand b dup =>
    simp only [StateDirs.step, StateDirs.swapHand]
    split
    · split
      · exact List.mem_cons_of_mem _ he
      · exact he
    · exact he
  | swapBind b opened =>
    simp only [StateDirs.step, StateDirs.swapBind]
    split
    · next z newPath hshadow =>
      obtain ⟨hpath, hlocks⟩ := (h.node b).unbound _ hshadow (by simp)
      have hkey : keeps s.nodes (b, .shadow) = keyOf b.1 (some z) := by
        simp [keeps, zooOf, hshadow]
      exact (bind_claims s.stat newPath h.claims hkey hpath hadm
        fun fd hfd => (hlocks fd hfd).2).2.1 x e hc he hx
    · exact he
  | swapVerdict b mismatch =>
    simp only [StateDirs.step, StateDirs.swapVerdict]
    split
    · next z newPath hshadow =>
      split
      · have hkey : keeps s.nodes (b, .shadow) = keyOf b.1 (some z) := by
          simp [keeps, zooOf, hshadow]
        exact (unlock_claims h.claims hkey).2 x e hc he hx
      · exact he
    · exact he
  | swapRetire b =>
    simp only [StateDirs.step, StateDirs.swapRetire]
    split
    · next z hretired =>
      have hkey : keeps s.nodes (b, .retired) = keyOf b.1 (some z) := by
        simp [keeps, zooOf, hretired]
      exact (unlock_claims h.claims hkey).2 x e hc he hx
    · exact he
  | exit process =>
    obtain ⟨fd, -, hfd⟩ := Option.map_eq_some_iff.1 hx
    refine List.mem_filter.2 ⟨he, decide_eq_true ?_⟩
    rw [← hfd]
    exact hc

/-- Whose node a step is about. -/
def Concerns : DirStep → Party → Prop
  | .boot b .., a => a = b
  | .swapLoad b .., a => a = b
  | .swapHand b _, a => a = b
  | .swapBind b _, a => a = b
  | .swapVerdict b _, a => a = b
  | .swapRetire b, a => a = b
  | .exit process, a => a.1 = process
  | _, _ => False

theorem step_nodes (hc : ¬Concerns c a) : (s.step c).nodes a = s.nodes a := by
  have hset : ∀ (s' : StateDirs) (b : Party) (n : NodeEnsembles), a ≠ b → (s'.setNode b n).nodes a = s'.nodes a :=
    fun s' b n hab => Function.update_of_ne hab ..
  cases c with
  | appear stat => rfl
  | save b => rfl
  | boot b dir opened mismatch =>
    simp only [step, StateDirs.boot]
    split
    · rfl
    · exact hset _ _ _ hc
  | swapLoad b newPath loads =>
    simp only [step, StateDirs.swapLoad]
    split_ifs
    · rfl
    · exact hset _ _ _ hc
    · rfl
  | swapHand b dup =>
    simp only [step, StateDirs.swapHand]
    split
    · split <;> exact hset _ _ _ hc
    · rfl
  | swapBind b opened =>
    simp only [step, StateDirs.swapBind]
    split
    · exact hset _ _ _ hc
    · rfl
  | swapVerdict b mismatch =>
    simp only [step, StateDirs.swapVerdict]
    split
    · split <;> exact hset _ _ _ hc
    · rfl
  | swapRetire b =>
    simp only [step, StateDirs.swapRetire]
    split
    · exact hset _ _ _ hc
    · rfl
  | exit process => exact if_neg hc

/-! ### Swaps within a directory -/

/-- The ensemble is bound to the directory, and the lock is the one it keeps. -/
def Guards (s : StateDirs) (a : Party) (z : StateBinding) (d : ℕ) : Prop :=
  ∃ p fd, deriveStateDir z = some p ∧ s.stat p = some d ∧ z.stateLockFd = some fd ∧
    (⟨(a.1, fd), d⟩ : LockDescriptor) ∈ s.table

/-- The node's ensemble guards the directory, and one that is loaded to replace it goes there too. -/
structure Guarding (s : StateDirs) (a : Party) (d : ℕ) : Prop where
  served : ∃ z, (s.nodes a).served = some z ∧ s.Guards a z d
  shadow : ∀ sh, (s.nodes a).shadow = some sh → sh.newPath ≠ [] ∧ s.stat sh.newPath = some d ∧
    sh.newPath.length + 18 < 400 ∧ (sh.stage = .bound → sh.zoo.contended = true ∨ s.Guards a sh.zoo d)

/-- The node's process lives on, its swaps go to the directory, by a path short enough to bind, and the lock file can
    be opened. -/
def Within (a : Party) (d : ℕ) (s : StateDirs) : DirStep → Prop
  | .swapLoad b newPath _ => b = a → newPath = [] ∨ s.stat newPath = some d ∧ newPath.length + 18 < 400
  | .swapBind b opened => b = a → opened ≠ none
  | .exit process => process ≠ a.1
  | _ => True

theorem step_stat (hadm : s.Admitted c) {p : DirPath} (h : s.stat p = some d) : (s.step c).stat p = some d := by
  cases c with
  | appear stat => exact hadm p d h
  | save b => exact h
  | boot b dir opened mismatch =>
    simp only [step, StateDirs.boot]
    split <;> exact h
  | swapLoad b newPath loads =>
    simp only [step, StateDirs.swapLoad]
    split_ifs <;> exact h
  | swapHand b dup =>
    simp only [step, StateDirs.swapHand]
    split
    · split <;> exact h
    · exact h
  | swapBind b opened =>
    simp only [step, StateDirs.swapBind]
    split <;> exact h
  | swapVerdict b mismatch =>
    simp only [step, StateDirs.swapVerdict]
    split
    · split <;> exact h
    · exact h
  | swapRetire b =>
    simp only [step, StateDirs.swapRetire]
    split <;> exact h
  | exit process => exact h

theorem Guards.survives {z : StateBinding} {r : Role} (hg : s.Guards a z d) (h : s.Inv) (hadm : s.Admitted c)
    (hz : zooOf (s.nodes a) r = some z) (hc : ¬Frees c (a, r)) : (s.step c).Guards a z d := by
  obtain ⟨p, fd, hp, hstat, hfd, hd⟩ := hg
  have hkeeps : keeps s.nodes (a, r) = some (a.1, fd) := by
    simp [keeps, keyOf, hz, hfd]
  exact ⟨p, fd, hp, step_stat hadm hstat, hfd, h.survives hadm hd hkeeps hc⟩

/-- Binding within a directory whose lock is held: by the descriptor that came along, or not at all. -/
theorem bind_within {z : StateBinding} {stat : DirStat} {table : List LockDescriptor} (process : ℕ) {dir : DirPath}
    {opened : Option ℕ} (hdir : dir ≠ []) (hlen : dir.length + 18 < 400) (hstat : stat dir = some d)
    (hheld : LockTable.Held table d) (hopened : opened ≠ none) :
    (bindStateDir z stat table process dir opened).1.contended = true ∨
      (bindStateDir z stat table process dir opened).2 = table ∧
        (bindStateDir z stat table process dir opened).1.stateLockFd = z.stateLockFd ∧ z.stateLockFd ≠ none ∧
        (bindStateDir z stat table process dir opened).1.banditSavePath = dir ++ '/' :: modelStateFileBandit := by
  have hpath : ¬400 ≤ (dir ++ '/' :: modelStateFileBandit).length := by
    rw [List.length_append, show ('/' :: modelStateFileBandit).length = 18 from rfl]
    omega
  unfold bindStateDir
  rw [if_neg hdir]
  cases hfd : z.stateLockFd with
  | some fd =>
    simp only [setSavePath, if_neg hpath]
    exact .inr ⟨trivial, hfd, by simp, trivial⟩
  | none =>
    obtain ⟨fd, rfl⟩ := Option.ne_none_iff_exists'.1 hopened
    have hlock : foxDirLockExclusive stat table process dir (some fd) = .contended := by
      have hname : ('/' :: modelStateLockFile).length = 18 := rfl
      unfold foxDirLockExclusive
      rw [if_neg, hstat]
      · exact if_pos hheld
      · rw [List.length_append, hname]
        simp only [hdir, false_or]
        omega
    rw [hlock]
    exact .inl rfl

/-- A step of others leaves the guard as it is. -/
theorem Guarding.step_other (hg : s.Guarding a d) (h : s.Inv) (hadm : s.Admitted c) (hc : ¬Concerns c a) :
    (s.step c).Guarding a d := by
  have hfrees : ∀ r, ¬Frees c (a, r) := by
    intro r hf
    cases c <;> simp only [Frees, Prod.mk.injEq] at hf
    · exact hc hf.1
    · exact hc hf.1
    · exact hc hf.1
    · exact hc hf
  obtain ⟨z, hz, hguards⟩ := hg.served
  refine ⟨⟨z, ?_, hguards.survives h hadm (r := .served) hz (hfrees _)⟩, fun sh hsh => ?_⟩
  · rw [step_nodes hc]
    exact hz
  · rw [step_nodes hc] at hsh
    obtain ⟨hne, hstat, hlen, hbound⟩ := hg.shadow sh hsh
    refine ⟨hne, step_stat hadm hstat, hlen, fun hstage => (hbound hstage).imp_right fun hgs => ?_⟩
    have hzoo : zooOf (s.nodes a) .shadow = some sh.zoo := by
      rw [zooOf, hsh]
      rfl
    exact hgs.survives h hadm hzoo (hfrees _)

/-- **Every step within the directory keeps it guarded.** -/
theorem Guarding.step (hg : s.Guarding a d) (h : s.Inv) (hadm : s.Admitted c) (hc : Within a d s c) :
    (s.step c).Guarding a d := by
  by_cases hown : Concerns c a
  swap
  · exact hg.step_other h hadm hown
  obtain ⟨z, hz, hguards⟩ := hg.served
  have hkept : ∀ {c'}, s.Admitted c' → ¬Frees c' (a, .served) → (s.step c').Guards a z d := fun hadm' hf =>
    hguards.survives h hadm' (r := .served) hz hf
  cases c with
  | appear stat => exact hown.elim
  | save b => exact hown.elim
  | exit process => exact absurd hown.symm hc
  | boot b dir opened mismatch =>
    obtain rfl : a = b := hown
    exact (nomatch hz.symm.trans hadm.1)
  | swapLoad b newPath loads =>
    obtain rfl : a = b := hown
    have hguards' := hkept hadm fun hf => hf
    simp only [StateDirs.step, StateDirs.swapLoad] at hguards' ⊢
    split_ifs at hguards' ⊢ with hskip hloads
    · exact hg
    · rw [not_or] at hskip
      refine ⟨⟨z, ?_, hguards'⟩, fun sh hsh => ?_⟩
      · simp only [setNode, Function.update_self]
        exact hz
      · simp only [setNode, Function.update_self, Option.some.injEq] at hsh
        subst hsh
        obtain ⟨hstat, hlen⟩ := (hc rfl).resolve_left hskip.1
        exact ⟨hskip.1, hstat, hlen, fun hstage => (nomatch hstage)⟩
    · exact ⟨⟨z, hz, hguards'⟩, hg.shadow⟩
  | swapHand b dup =>
    obtain rfl : a = b := hown
    have hguards' := hkept hadm fun hf => hf
    simp only [StateDirs.step, StateDirs.swapHand] at hguards' ⊢
    split at hguards'
    · next old w newPath hold hshadow =>
      obtain ⟨hne, hstat, hlen, -⟩ := hg.shadow _ hshadow
      split at hguards'
      all_goals
        refine ⟨⟨z, ?_, hguards'⟩, fun sh hsh => ?_⟩
        · simp only [setNode, Function.update_self]
          exact hz
        · simp only [setNode, Function.update_self, Option.some.injEq] at hsh
          subst hsh
          exact ⟨hne, hstat, hlen, fun hstage => (nomatch hstage)⟩
    · exact hg
  | swapBind b opened =>
    obtain rfl : a = b := hown
    have hguards' := hkept hadm (by simp [Frees])
    simp only [StateDirs.step, StateDirs.swapBind] at hguards' ⊢
    split at hguards'
    · next w newPath hshadow =>
      obtain ⟨hne, hstat, hlen, -⟩ := hg.shadow _ hshadow
      obtain ⟨-, hlocks⟩ := (h.node a).unbound _ hshadow (by simp)
      obtain ⟨-, fd, -, -, -, hd⟩ := hguards
      have hbind := bind_within (z := w) a.1 hne hlen hstat ⟨_, hd, rfl⟩ (hc rfl)
      refine ⟨⟨z, ?_, hguards'⟩, fun sh hsh => ?_⟩
      · simp only [setNode, Function.update_self]
        exact hz
      · simp only [setNode, Function.update_self, Option.some.injEq] at hsh
        subst hsh
        refine ⟨hne, hstat, hlen, fun _ => hbind.imp_right ?_⟩
        rintro ⟨htable, hfd, hsome, hpath⟩
        obtain ⟨k, hk⟩ := Option.ne_none_iff_exists'.1 hsome
        obtain ⟨d', hd', hstat'⟩ := (hlocks k hk).2
        obtain rfl := Option.some.inj (hstat.symm.trans hstat')
        exact ⟨newPath, k, deriveStateDir_setSavePath hne hpath, hstat, hfd.trans hk, htable.symm ▸ hd'⟩
    · exact hg
  | swapVerdict b mismatch =>
    obtain rfl : a = b := hown
    have hguards' := hkept hadm (by simp [Frees])
    simp only [StateDirs.step, StateDirs.swapVerdict] at hguards' ⊢
    split at hguards'
    · next w newPath hshadow =>
      obtain ⟨-, -, -, hbound⟩ := hg.shadow _ hshadow
      split at hguards'
      · next href =>
        rw [if_pos href]
        refine ⟨⟨z, ?_, hguards'⟩, fun sh hsh => ?_⟩
        · simp only [setNode, Function.update_self]
          exact hz
        · simp only [setNode, Function.update_self] at hsh
          cases hsh
      · next href =>
        -- it was not refused, so it is bound and guards the directory itself
        rw [if_neg href]
        have hcont : w.contended ≠ true := fun hw => href (by rw [hw]; rfl)
        refine ⟨⟨w, ?_, (hbound rfl).resolve_left hcont⟩, fun sh hsh => ?_⟩
        · simp only [setNode, Function.update_self]
        · simp only [setNode, Function.update_self] at hsh
          cases hsh
    · exact hg
  | swapRetire b =>
    obtain rfl : a = b := hown
    have hguards' := hkept hadm (by simp [Frees])
    have halone := (h.node a).alone
    simp only [StateDirs.step, StateDirs.swapRetire] at hguards' ⊢
    split at hguards'
    · next w hretired =>
      rw [hretired] at halone
      refine ⟨⟨z, ?_, hguards'⟩, fun sh hsh => ?_⟩
      · simp only [setNode, Function.update_self]
        exact hz
      · simp only [setNode, Function.update_self] at hsh
        exact absurd (halone (by simp [hsh])) (by simp)
    · exact hg

/-- **A swap within a directory never lets it go**: from a point of a run at which a node is bound and has no swap
    under way, it is bound to the directory and the only one to write there at every later point, as long as its
    swaps stay within. -/
theorem handover_gapless (stat : DirStat) (before cs : List DirStep) (a : Party) (z : StateBinding) (d : ℕ)
    (h : Steps step Admitted (start stat) (before ++ cs))
    (hserved : ((run step (start stat) before).nodes a).served = some z)
    (hidle : ((run step (start stat) before).nodes a).shadow = none)
    (hguards : (run step (start stat) before).Guards a z d)
    (hwithin : Steps step (Within a d) (run step (start stat) before) cs) :
    (∃ w, ((run step (start stat) (before ++ cs)).nodes a).served = some w ∧
        (run step (start stat) (before ++ cs)).Guards a w d) ∧
      ∀ c b q, (b, q) ∈ (run step (start stat) (before ++ cs)).writes c →
        (run step (start stat) (before ++ cs)).stat q = some d → b = a := by
  obtain ⟨hbefore, hcs⟩ := steps_append.1 h
  have hinv := inv_run hbefore
  have hfirst : (run step (start stat) before).Guarding a d :=
    ⟨⟨z, hserved, hguards⟩, fun sh hsh => (nomatch hidle.symm.trans hsh)⟩
  have hstep : ∀ (s : StateDirs) (c : DirStep), s.Inv ∧ s.Guarding a d → s.Admitted c ∧ Within a d s c →
      (s.step c).Inv ∧ (s.step c).Guarding a d :=
    fun _ _ hs hc => ⟨hs.1.step hc.1, hs.2.step hs.1 hc.1 hc.2⟩
  have hrun := run_inv_of_steps hstep cs ⟨hinv, hfirst⟩ (steps_and.2 ⟨hcs, hwithin⟩)
  rw [← run_append] at hrun
  generalize run step (start stat) (before ++ cs) = s at hrun ⊢
  obtain ⟨w, hw, hg⟩ := hrun.2.served
  refine ⟨⟨w, hw, hg⟩, fun c b q hq hstat => ?_⟩
  obtain ⟨v, hv, hvq⟩ := writes_served hq
  obtain ⟨p, fd, hp, hpd, -⟩ := hg
  have hx : zooOf (s.nodes ((b, Role.served) : Place).1) ((b, Role.served) : Place).2 = some v := hv
  have hy : zooOf (s.nodes ((a, Role.served) : Place).1) ((a, Role.served) : Place).2 = some w := hw
  exact hrun.1.sole hx hy hvq hp hstat hpd

/-- A node swaps within its directory, spelled the other way, while another boots into it. -/
def respelledSwap : List DirStep := [
  .swapLoad (1, 0) "m/a/".toList true,
  .boot (2, 0) "m/a".toList (some 5) false,
  .swapHand (1, 0) (some 6),
  .swapBind (1, 0) (some 7),
  .swapVerdict (1, 0) false,
  .swapRetire (1, 0)
]

def firstBoot : List DirStep := [.boot (1, 0) "m/a".toList (some 5) false]

theorem respelledSwap_admitted : Steps step Admitted (start twoDirs) (firstBoot ++ respelledSwap) := by
  refine ⟨⟨rfl, rfl, rfl, ?_⟩, ⟨rfl, rfl⟩, ⟨rfl, rfl, rfl, ?_⟩, ?_, ?_, trivial, trivial, trivial⟩
  all_goals
    rintro k ⟨rfl⟩
    decide +kernel

theorem handover_gapless_respelled :
    (∃ w, ((run step (start twoDirs) (firstBoot ++ respelledSwap)).nodes (1, 0)).served = some w ∧
        (run step (start twoDirs) (firstBoot ++ respelledSwap)).Guards (1, 0) w 1) ∧
      ∀ c b q, (b, q) ∈ (run step (start twoDirs) (firstBoot ++ respelledSwap)).writes c →
        (run step (start twoDirs) (firstBoot ++ respelledSwap)).stat q = some 1 → b = (1, 0) :=
  handover_gapless twoDirs firstBoot respelledSwap (1, 0)
    ⟨0, false, false, some 5, "m/a/bandit_state.json".toList⟩ 1 respelledSwap_admitted (by decide +kernel) rfl
    ⟨"m/a".toList, 5, by decide +kernel, by decide +kernel, rfl, by decide +kernel⟩
    ⟨fun _ => .inr (by decide +kernel), trivial, trivial, fun _ => by simp, trivial, trivial, trivial⟩

/-! ### The reference of the order manager -/

/-- The allocation in a place. -/
def serials (nodes : Party → NodeEnsembles) (x : Place) : Option ℕ :=
  (zooOf (nodes x.1) x.2).map StateBinding.serial

/-- An allocation is in one place, and of the past. -/
structure Numbered (next : ℕ) (serials : Place → Option ℕ) : Prop where
  below : ∀ x k, serials x = some k → k < next
  place : ∀ x y k, serials x = some k → serials y = some k → x = y

section Serials

variable {nodes : Party → NodeEnsembles} {n : NodeEnsembles} {r : Role} {next : ℕ} {f g : Place → Option ℕ} {k : ℕ}

theorem bindStateDir_serial (z : StateBinding) (stat : DirStat) (table : List LockDescriptor) (process : ℕ)
    (dir : DirPath) (opened : Option ℕ) : (bindStateDir z stat table process dir opened).1.serial = z.serial := by
  have hset : ∀ (z : StateBinding) table, (setSavePath z table process dir).1.serial = z.serial := by
    intro z table
    simp only [setSavePath]
    split <;> rfl
  unfold bindStateDir
  split
  · rfl
  · split
    · exact hset z table
    · split
      · rfl
      · rfl
      · exact hset _ _

theorem serials_role (h : ∀ r' ≠ r, zooOf n r' = zooOf (nodes a) r') :
    serials (Function.update nodes a n) =
      Function.update (serials nodes) (a, r) ((zooOf n r).map StateBinding.serial) := by
  funext x
  unfold serials
  rcases eq_or_ne x (a, r) with rfl | hx
  · rw [Function.update_self, Function.update_self]
  · rw [zooOf_role h hx, Function.update_of_ne hx]

theorem Numbered.letGo (h : Numbered next f) (hle : ∀ x k, g x = some k → f x = some k) : Numbered next g :=
  ⟨fun x k hx => h.below x k (hle x k hx), fun x y k hx hy => h.place x y k (hle x k hx) (hle y k hy)⟩

theorem Numbered.mono {next' : ℕ} (h : Numbered next f) (hle : next ≤ next') : Numbered next' f :=
  ⟨fun x k hx => Nat.lt_of_lt_of_le (h.below x k hx) hle, h.place⟩

theorem Numbered.fresh (h : Numbered next f) (x : Place) :
    Numbered (next + 1) (Function.update f x (some next)) := by
  have hcases : ∀ y k, Function.update f x (some next) y = some k → y = x ∧ k = next ∨ f y = some k := by
    intro y k hy
    rcases eq_or_ne y x with rfl | hyx
    · rw [Function.update_self] at hy
      exact .inl ⟨rfl, (Option.some.inj hy).symm⟩
    · rw [Function.update_of_ne hyx] at hy
      exact .inr hy
  refine ⟨fun y k hy => ?_, fun y y' k hy hy' => ?_⟩
  · rcases hcases y k hy with ⟨-, rfl⟩ | hy
    · exact Nat.lt_succ_self _
    · exact Nat.lt_succ_of_lt (h.below y k hy)
  · rcases hcases y k hy with ⟨rfl, rfl⟩ | hfy <;> rcases hcases y' _ hy' with ⟨rfl, heq⟩ | hfy'
    · rfl
    · exact absurd (h.below y' _ hfy') (Nat.lt_irrefl _)
    · exact absurd (heq ▸ h.below y _ hfy) (Nat.lt_irrefl _)
    · exact h.place y y' k hfy hfy'

/-- The exchange of the handle: the node's new ensemble takes the old one's place. -/
theorem Numbered.publish (h : Numbered next f) (hg : ∀ x, x.1 ≠ a → g x = f x)
    (hserved : g (a, .served) = f (a, .shadow)) (hshadow : g (a, .shadow) = none)
    (hretired : g (a, .retired) = f (a, .served)) : Numbered next g := by
  -- each allocation was in one place before
  have hback : ∀ x k, g x = some k → ∃ y, f y = some k ∧
      (x.1 ≠ a ∧ y = x ∨ x = (a, .served) ∧ y = (a, .shadow) ∨ x = (a, .retired) ∧ y = (a, .served)) := by
    rintro ⟨b, r⟩ k hx
    by_cases hb : b = a
    · subst hb
      cases r with
      | served => exact ⟨_, hserved ▸ hx, .inr (.inl ⟨rfl, rfl⟩)⟩
      | shadow => exact (nomatch hshadow.symm.trans hx)
      | retired => exact ⟨_, hretired ▸ hx, .inr (.inr ⟨rfl, rfl⟩)⟩
    · exact ⟨_, hg (b, r) hb ▸ hx, .inl ⟨hb, rfl⟩⟩
  refine ⟨fun x k hx => ?_, fun x x' k hx hx' => ?_⟩
  · obtain ⟨y, hy, -⟩ := hback x k hx
    exact h.below y k hy
  · obtain ⟨y, hy, hcase⟩ := hback x k hx
    obtain ⟨y', hy', hcase'⟩ := hback x' k hx'
    have heq := h.place y y' k hy hy'
    rcases hcase with ⟨hxa, rfl⟩ | ⟨rfl, rfl⟩ | ⟨rfl, rfl⟩ <;>
      rcases hcase' with ⟨hxa', rfl⟩ | ⟨rfl, rfl⟩ | ⟨rfl, rfl⟩ <;>
      first
        | exact heq
        | rfl
        | exact absurd (heq ▸ rfl) hxa
        | exact absurd (heq ▸ rfl) hxa'
        | simp at heq

/-- What a step does to the allocations: some go, or a new one comes, or a node exchanges its handle. -/
theorem serials_step (hadm : s.Admitted c) :
    (∀ x k, serials (s.step c).nodes x = some k → serials s.nodes x = some k) ∧ s.serial ≤ (s.step c).serial ∨
      (∃ x, serials (s.step c).nodes = Function.update (serials s.nodes) x (some s.serial) ∧
        (s.step c).serial = s.serial + 1) ∨
      ∃ a, (∀ x, x.1 ≠ a → serials (s.step c).nodes x = serials s.nodes x) ∧
        serials (s.step c).nodes (a, .served) = serials s.nodes (a, .shadow) ∧
        serials (s.step c).nodes (a, .shadow) = none ∧
        serials (s.step c).nodes (a, .retired) = serials s.nodes (a, .served) ∧ (s.step c).serial = s.serial := by
  have hgone : ∀ {nodes' : Party → NodeEnsembles} (a : Party) (r : Role),
      nodes' = Function.update s.nodes a (nodes' a) → (∀ r' ≠ r, zooOf (nodes' a) r' = zooOf (s.nodes a) r') →
      ((zooOf (nodes' a) r).map StateBinding.serial = none ∨
        (zooOf (nodes' a) r).map StateBinding.serial = serials s.nodes (a, r)) →
      ∀ x k, serials nodes' x = some k → serials s.nodes x = some k := by
    intro nodes' a r hnodes hothers hr x k hx
    rw [hnodes, serials_role hothers] at hx
    rcases eq_or_ne x (a, r) with rfl | hne
    · rw [Function.update_self] at hx
      rcases hr with hr | hr
      · exact (nomatch hr.symm.trans hx)
      · exact hr ▸ hx
    · rwa [Function.update_of_ne hne] at hx
  have hself : ∀ (s' : StateDirs) (a : Party) (n : NodeEnsembles), s'.nodes = s.nodes →
      (s'.setNode a n).nodes = Function.update s.nodes a ((s'.setNode a n).nodes a) := by
    intro s' a n hs'
    simp [setNode, hs']
  cases c with
  | appear stat => exact .inl ⟨fun _ _ hx => hx, Nat.le_refl _⟩
  | save b => exact .inl ⟨fun _ _ hx => hx, Nat.le_refl _⟩
  | boot b dir opened mismatch =>
    simp only [step, StateDirs.boot]
    split
    · exact .inl ⟨fun _ _ hx => hx, Nat.le_succ _⟩
    · refine .inr (.inl ⟨(b, .served), ?_, rfl⟩)
      simp only [setNode]
      rw [serials_role (zooOf_withServed _ _ _)]
      simp only [zooOf, Option.map_some, bindStateDir_serial, StateBinding.init]
  | swapLoad b newPath loads =>
    simp only [step, StateDirs.swapLoad]
    split_ifs
    · exact .inl ⟨fun _ _ hx => hx, Nat.le_refl _⟩
    · refine .inr (.inl ⟨(b, .shadow), ?_, rfl⟩)
      simp only [setNode]
      rw [serials_role (zooOf_withShadow _ _)]
      rfl
    · exact .inl ⟨fun _ _ hx => hx, Nat.le_succ _⟩
  | swapHand b dup =>
    simp only [step, StateDirs.swapHand]
    split
    · next old z newPath hold hshadow =>
      split
      all_goals
        refine .inl ⟨hgone b .shadow (hself _ b _ rfl) (fun r' hr => ?_) (.inr ?_), Nat.le_refl _⟩
        · simp only [setNode, Function.update_self]
          exact zooOf_withShadow _ _ r' hr
        · simp [setNode, zooOf, serials, hshadow]
    · exact .inl ⟨fun _ _ hx => hx, Nat.le_refl _⟩
  | swapBind b opened =>
    simp only [step, StateDirs.swapBind]
    split
    · next z newPath hshadow =>
      refine .inl ⟨hgone b .shadow (hself _ b _ rfl) (fun r' hr => ?_) (.inr ?_), Nat.le_refl _⟩
      · simp only [setNode, Function.update_self]
        exact zooOf_withShadow _ _ r' hr
      · simp [setNode, zooOf, serials, hshadow, bindStateDir_serial]
    · exact .inl ⟨fun _ _ hx => hx, Nat.le_refl _⟩
  | swapVerdict b mismatch =>
    simp only [step, StateDirs.swapVerdict]
    split
    · next z newPath hshadow =>
      split
      · refine .inl ⟨hgone b .shadow (hself _ b _ rfl) (fun r' hr => ?_) (.inl ?_), Nat.le_refl _⟩
        · simp only [setNode, Function.update_self]
          exact zooOf_withShadow _ _ r' hr
        · simp [setNode, zooOf]
      · refine .inr (.inr ⟨b, fun x hx => ?_, ?_, ?_, ?_, rfl⟩)
        · simp [setNode, serials, Function.update_of_ne hx]
        · simp [setNode, serials, zooOf, hshadow]
        · simp [setNode, serials, zooOf]
        · simp [setNode, serials, zooOf]
    · exact .inl ⟨fun _ _ hx => hx, Nat.le_refl _⟩
  | swapRetire b =>
    simp only [step, StateDirs.swapRetire]
    split
    · refine .inl ⟨hgone b .retired (hself _ b _ rfl) (fun r' hr => ?_) (.inl ?_), Nat.le_refl _⟩
      · simp only [setNode, Function.update_self]
        exact zooOf_withRetired _ _ r' hr
      · simp [setNode, zooOf]
    · exact .inl ⟨fun _ _ hx => hx, Nat.le_refl _⟩
  | exit process =>
    refine .inl ⟨fun x k hx => ?_, Nat.le_refl _⟩
    unfold serials at hx
    simp only [step, StateDirs.exit] at hx
    split at hx
    · cases hr : x.2 <;> rw [hr] at hx <;> cases hx
    · exact hx

theorem Numbered.step (h : Numbered s.serial (serials s.nodes)) (hadm : s.Admitted c) :
    Numbered (s.step c).serial (serials (s.step c).nodes) := by
  rcases serials_step hadm with ⟨hgo, hle⟩ | ⟨x, hfresh, hnext⟩ | ⟨b, hothers, hserved, hshadow, hretired, hnext⟩
  · exact (h.letGo hgo).mono hle
  · rw [hfresh, hnext]
    exact h.fresh x
  · rw [hnext]
    exact h.publish hothers hserved hshadow hretired

/-- An allocation is one of before, or the newest. -/
theorem serials_step_old (hadm : s.Admitted c) {x : Place} (hx : serials (s.step c).nodes x = some k) :
    (∃ y, serials s.nodes y = some k) ∨ k = s.serial := by
  rcases serials_step hadm with ⟨hgo, -⟩ | ⟨y, hfresh, -⟩ | ⟨b, hothers, hserved, hshadow, hretired, -⟩
  · exact .inl ⟨x, hgo x k hx⟩
  · rw [hfresh] at hx
    rcases eq_or_ne x y with rfl | hxy
    · rw [Function.update_self] at hx
      exact .inr (Option.some.inj hx).symm
    · rw [Function.update_of_ne hxy] at hx
      exact .inl ⟨x, hx⟩
  · obtain ⟨a, r⟩ := x
    by_cases hab : a = b
    · subst hab
      cases r with
      | served => exact .inl ⟨_, hserved ▸ hx⟩
      | shadow => exact (nomatch hshadow.symm.trans hx)
      | retired => exact .inl ⟨_, hretired ▸ hx⟩
    · exact .inl ⟨_, hothers (a, r) hab ▸ hx⟩

theorem serial_le_step (hadm : s.Admitted c) : s.serial ≤ (s.step c).serial := by
  rcases serials_step hadm with ⟨-, hle⟩ | ⟨-, -, hnext⟩ | ⟨-, -, -, -, -, hnext⟩
  · exact hle
  · omega
  · omega

/-- The nodes whose replaced ensemble a step frees. -/
def retires (s : StateDirs) : DirStep → List Party
  | .swapRetire a => if (s.nodes a).retired.isSome then [a] else []
  | _ => []

/-- What the reference of a node names, by whether a swap of the node has been completed. -/
structure RefInv (a : Party) (s : StateDirs) (ys : List Party) : Prop where
  inv : s.Inv
  numbered : Numbered s.serial (serials s.nodes)
  old : ∀ k, (s.nodes a).ezooRef = some k → k < s.serial
  serves : a ∈ ys ∨ (s.nodes a).retired ≠ none → (s.nodes a).served ≠ none
  live : ∀ k, (s.nodes a).ezooRef = some k → a ∉ ys →
    (s.nodes a).served.map StateBinding.serial = some k ∧ (s.nodes a).retired = none ∨
      (s.nodes a).retired.map StateBinding.serial = some k
  gone : ∀ k, (s.nodes a).ezooRef = some k → a ∈ ys → ∀ x, serials s.nodes x ≠ some k

/-- Completing no swap of the node and leaving its reference, with its ensembles in place, a step keeps it. -/
theorem RefInv.keep {ys : List Party} (h : RefInv a s ys) (hadm : s.Admitted c) (hys : a ∉ retires s c)
    (href : ((s.step c).nodes a).ezooRef = (s.nodes a).ezooRef)
    (hserves : (s.nodes a).served ≠ none → ((s.step c).nodes a).served ≠ none)
    (hretired : ((s.step c).nodes a).retired ≠ none → (s.nodes a).served ≠ none)
    (hlive : ∀ k, (s.nodes a).served.map StateBinding.serial = some k ∧ (s.nodes a).retired = none ∨
        (s.nodes a).retired.map StateBinding.serial = some k →
      ((s.step c).nodes a).served.map StateBinding.serial = some k ∧ ((s.step c).nodes a).retired = none ∨
        ((s.step c).nodes a).retired.map StateBinding.serial = some k) :
    RefInv a (s.step c) (ys ++ retires s c) := by
  have hmem : a ∈ ys ++ retires s c ↔ a ∈ ys := by simp [hys]
  refine ⟨h.inv.step hadm, h.numbered.step hadm, fun k hk => ?_, fun hor => hserves ?_, fun k hk hya => ?_,
    fun k hk hya x hx => ?_⟩
  · exact Nat.lt_of_lt_of_le (h.old k (href ▸ hk)) (serial_le_step hadm)
  · exact hor.elim (fun hya => h.serves (.inl (hmem.1 hya))) hretired
  · exact hlive k (h.live k (href ▸ hk) fun hmem' => hya (hmem.2 hmem'))
  · rcases serials_step_old hadm hx with ⟨y, hy⟩ | rfl
    · exact h.gone k (href ▸ hk) (hmem.1 hya) y hy
    · exact Nat.lt_irrefl _ (h.old _ (href ▸ hk))

/-- A step that at most touches the ensemble being loaded keeps it. -/
theorem RefInv.keep_loading {ys : List Party} (h : RefInv a s ys) (hadm : s.Admitted c) (hys : a ∉ retires s c)
    (hnode : ∃ sh, (s.step c).nodes a = { s.nodes a with shadow := sh }) :
    RefInv a (s.step c) (ys ++ retires s c) := by
  obtain ⟨sh, hnode⟩ := hnode
  refine h.keep hadm hys ?_ ?_ ?_ ?_ <;> rw [hnode]
  · exact id
  · exact fun hretired => h.serves (.inr hretired)
  · exact fun k hk => hk

theorem RefInv.step {ys : List Party} (h : RefInv a s ys) (hadm : s.Admitted c)
    (hstays : ∀ process, c = .exit process → process ≠ a.1) : RefInv a (s.step c) (ys ++ retires s c) := by
  by_cases hown : Concerns c a
  swap
  · refine h.keep_loading hadm (fun hmem => hown ?_) ⟨(s.nodes a).shadow, step_nodes hown⟩
    cases c <;> simp only [retires, List.not_mem_nil] at hmem
    split at hmem
    · exact List.mem_singleton.1 hmem
    · cases hmem
  cases c with
  | appear stat => exact hown.elim
  | save b => exact hown.elim
  | exit process => exact absurd hown.symm (hstays process rfl)
  | boot b dir opened mismatch =>
    obtain rfl : a = b := hown
    obtain ⟨hserved, -, hretired, -⟩ := id hadm
    have hinv := h.inv.step hadm
    have hnumbered := h.numbered.step hadm
    have hnew : a ∉ ys := fun hya => h.serves (.inl hya) hserved
    simp only [StateDirs.step, StateDirs.boot, retires, List.append_nil] at hinv hnumbered ⊢
    split at hinv
    · next hmis =>
      rw [if_pos hmis] at hnumbered ⊢
      exact ⟨hinv, hnumbered, fun k hk => Nat.lt_succ_of_lt (h.old k hk), h.serves, h.live, h.gone⟩
    · next hmis =>
      rw [if_neg hmis] at hnumbered ⊢
      refine ⟨hinv, hnumbered, ?_, ?_, ?_, fun k _ hya => absurd hya hnew⟩
      all_goals simp only [setNode, Function.update_self, bindStateDir_serial, StateBinding.init, Option.some.injEq]
      · rintro k rfl
        exact Nat.lt_succ_self _
      · exact fun _ => by simp
      · rintro k rfl -
        exact .inl ⟨by simp [bindStateDir_serial], hretired⟩
  | swapLoad b newPath loads =>
    obtain rfl : a = b := hown
    refine h.keep_loading hadm (by simp [retires]) ?_
    simp only [StateDirs.step, StateDirs.swapLoad]
    split_ifs
    · exact ⟨_, rfl⟩
    · exact ⟨_, Function.update_self ..⟩
    · exact ⟨_, rfl⟩
  | swapHand b dup =>
    obtain rfl : a = b := hown
    refine h.keep_loading hadm (by simp [retires]) ?_
    simp only [StateDirs.step, StateDirs.swapHand]
    split
    · split <;> exact ⟨_, Function.update_self ..⟩
    · exact ⟨_, rfl⟩
  | swapBind b opened =>
    obtain rfl : a = b := hown
    refine h.keep_loading hadm (by simp [retires]) ?_
    simp only [StateDirs.step, StateDirs.swapBind]
    split
    · exact ⟨_, Function.update_self ..⟩
    · exact ⟨_, rfl⟩
  | swapVerdict b mismatch =>
    obtain rfl : a = b := hown
    by_cases hpub : ∃ z newPath, (s.nodes a).shadow = some ⟨z, newPath, .bound⟩ ∧ (z.contended || mismatch) = false
    · obtain ⟨z, newPath, hshadow, hpass⟩ := hpub
      have hretired := (h.inv.node a).alone (by simp [hshadow])
      have hnode : (s.step (.swapVerdict a mismatch)).nodes a =
          { s.nodes a with served := some z, shadow := none, retired := (s.nodes a).served } := by
        simp only [StateDirs.step, StateDirs.swapVerdict, hshadow, hpass, Bool.false_eq_true, if_false, setNode,
          Function.update_self]
      refine h.keep hadm (by simp [retires]) ?_ ?_ ?_ ?_ <;> rw [hnode]
      · exact fun _ => Option.some_ne_none z
      · exact id
      · -- what served is now the one to free
        intro k hk
        rw [hretired] at hk
        exact .inr (hk.resolve_right (by simp)).1
    · refine h.keep_loading hadm (by simp [retires]) ?_
      simp only [StateDirs.step, StateDirs.swapVerdict]
      split
      · next z newPath hshadow =>
        split
        · exact ⟨_, Function.update_self ..⟩
        · next hpass => exact absurd ⟨z, newPath, hshadow, Bool.eq_false_iff.2 hpass⟩ hpub
      · exact ⟨_, rfl⟩
  | swapRetire b =>
    obtain rfl : a = b := hown
    cases hretired : (s.nodes a).retired with
    | none =>
      have hsame : s.step (.swapRetire a) = s := by
        simp only [StateDirs.step, StateDirs.swapRetire, hretired]
      have hnone : retires s (.swapRetire a) = [] := by
        simp [retires, hretired]
      rw [hsame, hnone, List.append_nil]
      exact h
    | some z =>
      have hinv := h.inv.step hadm
      have hnumbered := h.numbered.step hadm
      have hserves := h.serves (.inr (by simp [hretired]))
      have hout : retires s (.swapRetire a) = [a] := by
        simp [retires, hretired]
      have hmem : a ∈ ys ++ [a] := by simp
      rw [hout]
      have hnode : (s.step (.swapRetire a)).nodes a = { s.nodes a with retired := none } := by
        simp only [StateDirs.step, StateDirs.swapRetire, hretired, setNode, Function.update_self]
      refine ⟨hinv, hnumbered, fun k hk => ?_, fun _ => ?_, fun _ _ hya => absurd hmem hya, fun k hk _ x hx => ?_⟩
      · rw [hnode] at hk
        exact Nat.lt_of_lt_of_le (h.old k hk) (serial_le_step hadm)
      · rw [hnode]
        exact hserves
      · rw [hnode] at hk
        rcases serials_step_old hadm hx with ⟨y, hy⟩ | rfl
        · by_cases hya : a ∈ ys
          · exact h.gone k hk hya y hy
          · -- it is the one that is freed, and was nowhere else
            have hfreed : serials s.nodes (a, .retired) = some k := by
              rcases h.live k hk hya with ⟨-, hnone⟩ | hk'
              · exact (nomatch hretired.symm.trans hnone)
              · exact hk'
            have hgo : ∀ x k, serials (s.step (.swapRetire a)).nodes x = some k →
                x ≠ (a, .retired) ∧ serials s.nodes x = some k := by
              rintro ⟨b, r⟩ k hx
              simp only [StateDirs.step, StateDirs.swapRetire, hretired, setNode] at hx
              rw [serials_role (zooOf_withRetired _ _)] at hx
              by_cases hbr : (b, r) = (a, Role.retired)
              · rw [hbr, Function.update_self] at hx
                cases hx
              · rw [Function.update_of_ne hbr] at hx
                exact ⟨hbr, hx⟩
            obtain ⟨hne, hx'⟩ := hgo x k hx
            exact hne (h.numbered.place x _ k hx' hfreed)
        · exact Nat.lt_irrefl _ (h.old _ hk)

theorem refInv_start (stat : DirStat) (a : Party) : RefInv a (start stat) [] where
  inv := inv_start stat
  numbered := by
    have hnone : ∀ x, serials (start stat).nodes x = none := fun x => by cases hr : x.2 <;> rw [serials, hr] <;> rfl
    exact ⟨fun x k hx => (nomatch (hnone x).symm.trans hx), fun x y k hx => (nomatch (hnone x).symm.trans hx)⟩
  old _ hk := nomatch hk
  serves h := h.elim (fun hm => nomatch hm) (absurd rfl)
  live _ hk := nomatch hk
  gone _ hk := nomatch hk

/-- **What `oms.ezoo_refs` names is there until a swap of its node has been completed, and gone from then on.** -/
theorem ezooRef_live_iff (stat : DirStat) (cs : List DirStep) (a : Party) (k : ℕ)
    (h : Steps step Admitted (start stat) cs) (hstays : ∀ process, DirStep.exit process ∈ cs → process ≠ a.1)
    (href : ((run step (start stat) cs).nodes a).ezooRef = some k) :
    (∃ x, serials (run step (start stat) cs).nodes x = some k) ↔ a ∉ outputs step retires (start stat) cs := by
  have hok : Steps step (fun _ c => ∀ process, c = .exit process → process ≠ a.1) (start stat) cs :=
    steps_of_forall fun c hc process hexit => hstays process (hexit ▸ hc)
  have hstep : ∀ (s : StateDirs) (c : DirStep) (ys : List Party), RefInv a s ys →
      s.Admitted c ∧ (∀ process, c = .exit process → process ≠ a.1) → RefInv a (s.step c) (ys ++ retires s c) :=
    fun _ _ _ hs hc => hs.step hc.1 hc.2
  have hend := run_outputs hstep cs [] (refInv_start stat a) (steps_and.2 ⟨h, hok⟩)
  rw [List.nil_append] at hend
  refine ⟨fun ⟨x, hx⟩ hmem => hend.gone k href hmem x hx, fun hmem => ?_⟩
  rcases hend.live k href hmem with ⟨hserved, -⟩ | hretired
  · exact ⟨(a, .served), hserved⟩
  · exact ⟨(a, .retired), hretired⟩

/-- After the swap the order manager still goes by the ensemble of the boot, and it is freed. -/
theorem ezooRef_live_iff_respelled :
    ¬∃ x, serials (run step (start twoDirs) (firstBoot ++ respelledSwap)).nodes x = some 0 :=
  fun hx => (ezooRef_live_iff twoDirs (firstBoot ++ respelledSwap) (1, 0) 0 respelledSwap_admitted
    (fun process hp => by simp [firstBoot, respelledSwap] at hp) (by decide +kernel)).1 hx (by decide +kernel)

end Serials

end StateDirs

end FoxTrader
