import ContextFree.Chart.Scan
import ContextFree.Derivation
import ContextFree.Proofs.Boundaries
import ContextFree.Proofs.Filling

/-! Scanning finds the matches of terminals. Black boxes come from outside: they are only asked at
boundaries, and a scan answers as long as they do. -/
namespace ContextFree

theorem mem_filterMap_term? {xs : List Symbol} {t : Terminal} :
    t ∈ xs.filterMap Symbol.term? ↔ .term t ∈ xs := by
  rw [List.mem_filterMap]
  constructor
  · rintro ⟨x, hx, h⟩
    cases x with
    | nonterm name => simp [Symbol.term?] at h
    | term t' => exact Option.some.inj h ▸ hx
  · exact fun h => ⟨_, h, rfl⟩

/-- Terminals with the same key are the same, if black boxes of the same name are the same matcher. -/
theorem Terminal.eq_of_key_eq_of_matcher_eq {s t : Terminal} (h : s.key = t.key)
    (hb : ∀ b c, s = .blackBox b → t = .blackBox c → b.name = c.name → b.matcher = c.matcher) :
    s = t := by
  cases s with
  | blackBox b =>
    cases t with
    | blackBox c =>
      have hname : b.name = c.name := by simpa [key] using h
      have hmatcher := hb b c rfl rfl hname
      cases b
      cases c
      simp_all
    | _ => simp [key] at h
  | _ => exact eq_of_key_eq h (by simp)

namespace Grammar

/-- The terminals on right-hand sides. -/
def terminals (g : Grammar) : List Terminal :=
  g.productions.flatMap fun p => p.rhs.filterMap Symbol.term?

/-- Black boxes of the same name are the same matcher. -/
def Coherent (g : Grammar) : Prop :=
  ∀ b c, .blackBox b ∈ g.terminals → .blackBox c ∈ g.terminals → b.name = c.name →
    b.matcher = c.matcher

/-- Every black box has an answer at the boundaries of a word, whatever it is. -/
def Answers (g : Grammar) (w : String) : Prop :=
  ∀ b, .blackBox b ∈ g.terminals → ∀ p ∈ Text.bounds w, ∃ r, b.matcher w p = .ok r

variable {g : Grammar}

theorem mem_terminals {t : Terminal} :
    t ∈ g.terminals ↔ ∃ p ∈ g.productions, .term t ∈ p.rhs := by
  simp only [terminals, List.mem_flatMap, mem_filterMap_term?]

/-- In a coherent grammar terminals are known by their keys. -/
theorem Coherent.eq_of_key_eq (hg : g.Coherent) {s t : Terminal} (hs : s ∈ g.terminals)
    (ht : t ∈ g.terminals) (h : s.key = t.key) : s = t :=
  Terminal.eq_of_key_eq_of_matcher_eq h (by rintro b c rfl rfl; exact hg b c hs ht)

end Grammar

section Accept
variable [Pattern.Engine] {t : Terminal} {w : String} {p q : Nat}

/-- Terminals answer at boundaries if black boxes do. -/
theorem Terminal.exists_accept (hb : ∀ b, t = .blackBox b → ∃ r, b.matcher w p = .ok r)
    (hp : p ∈ Text.bounds w) : ∃ r, t.accept w p = .ok r := by
  obtain ⟨cs, hcs⟩ := Matcher.rest_of_mem_bounds hp
  have hmatch : ∃ r, t.matcher w p = .ok r := by
    cases t with
    | literal s => exact ⟨_, by rw [matcher, Matcher.literal, hcs]; rfl⟩
    | charClass c => exact Matcher.exists_one c.contains hp
    | pattern s => exact ⟨_, rfl⟩
    | blackBox b => exact hb b rfl
  obtain ⟨r, hr⟩ := hmatch
  exact ⟨_, by rw [accept, hr]; rfl⟩

/-- The empty literal accepts nothing. -/
theorem Terminal.accept_ne_some_of_isEmpty (ht : t.isEmpty = true) :
    t.accept w p ≠ .ok (some q) := by
  intro h
  have hlt := lt_of_accept h
  cases t with
  | literal s =>
    have hs : s.toList = [] := List.isEmpty_iff.1 ht
    rw [accept, matcher, Matcher.literal] at h
    cases hr : Matcher.rest w p with
    | error e => simp [hr, bind, Except.bind] at h
    | ok cs =>
      have h : p = q ∧ p < q := by
        simpa [hr, hs, bind, Except.bind, pure, Except.pure] using h
      omega
  | _ => simp [isEmpty] at ht

/-- Between different offsets a terminal takes what it accepts. -/
theorem Terminal.takes_iff_of_lt (hpq : p < q) :
    t.Takes w p q ↔ q ∈ Text.bounds w ∧ t.accept w p = .ok (some q) := by
  rw [Takes]
  split
  · rename_i ht
    constructor
    · intro h
      exact absurd h hpq.ne
    · intro h
      exact (accept_ne_some_of_isEmpty ht h.2).elim
  · rfl

end Accept

theorem idxOf?_bounds {w : String} {q j : Nat} :
    (Text.bounds w).idxOf? q = some j ↔ (Text.bounds w)[j]? = some q := by
  rw [List.idxOf?, List.findIdx?_eq_some_iff_getElem]
  constructor
  · rintro ⟨hj, he, -⟩
    rw [List.getElem?_eq_getElem hj]
    exact congrArg some (eq_of_beq he)
  · intro h
    obtain ⟨hj, rfl⟩ := List.getElem?_eq_some_iff.1 h
    refine ⟨hj, by simp, fun k hk => ?_⟩
    have hlt := List.pairwise_iff_getElem.1 (Text.bounds_pairwise w) k j (by omega) hj hk
    simpa using hlt.ne

section Rows
variable [Pattern.Engine]

theorem scanAt_cons {w : String} {i p number : Nat} {t : Terminal} {ts : List (Terminal × Nat)}
    {r : Option Nat} {ms : List Match} (hr : t.accept w p = .ok r)
    (hms : scanAt w (Text.bounds w) i p ts = .ok ms) :
    scanAt w (Text.bounds w) i p ((t, number) :: ts) =
      .ok ((r.bind (Text.bounds w).idxOf?).toList.map (⟨number, · - i⟩) ++ ms) := by
  simp only [scanAt, hr, hms, bind, Except.bind]
  cases r.bind (Text.bounds w).idxOf? <;> rfl

/-- A row has the matches that end at boundaries. -/
theorem exists_scanAt {w : String} {i p : Nat} {ts : List (Terminal × Nat)}
    (h : ∀ e ∈ ts, ∃ r, e.1.accept w p = .ok r) :
    ∃ ms, scanAt w (Text.bounds w) i p ts = .ok ms ∧ ∀ m, m ∈ ms ↔ ∃ t q j, (t, m.term) ∈ ts ∧
      t.accept w p = .ok (some q) ∧ (Text.bounds w)[j]? = some q ∧ m.length = j - i := by
  induction ts with
  | nil => exact ⟨[], rfl, by simp⟩
  | cons e ts ih =>
    obtain ⟨t, number⟩ := e
    obtain ⟨r, hr⟩ := h (t, number) (.head _)
    obtain ⟨ms, hms, hmem⟩ := ih fun e he => h e (.tail _ he)
    refine ⟨_, scanAt_cons hr hms, fun m => ?_⟩
    simp only [List.mem_append, List.mem_map, Option.mem_toList,
      Option.bind_eq_some_iff, idxOf?_bounds, hmem]
    constructor
    · rintro (⟨j, ⟨q, rfl, hj⟩, rfl⟩ | ⟨u, q, j, hu, hrest⟩)
      · exact ⟨t, q, j, .head _, hr, hj, rfl⟩
      · exact ⟨u, q, j, .tail _ hu, hrest⟩
    · rintro ⟨u, q, j, hu, haccept, hj, hlen⟩
      rcases List.mem_cons.1 hu with he | hu
      · left
        obtain ⟨rfl, hnumber⟩ := Prod.mk.inj he
        rw [hr, Except.ok.injEq] at haccept
        refine ⟨j, ⟨q, haccept, hj⟩, ?_⟩
        rw [← hnumber, ← hlen]
      · right
        exact ⟨u, q, j, hu, haccept, hj, hlen⟩

theorem exists_accept_of_scanAt {w : String} {bounds : List Nat} {i p : Nat}
    {ts : List (Terminal × Nat)} {ms : List Match} (h : scanAt w bounds i p ts = .ok ms) :
    ∀ e ∈ ts, ∃ r, e.1.accept w p = .ok r := by
  induction ts generalizing ms with
  | nil => simp
  | cons e ts ih =>
    obtain ⟨t, number⟩ := e
    rw [scanAt] at h
    cases hr : t.accept w p with
    | error f => simp [hr, bind, Except.bind] at h
    | ok r =>
      cases hms : scanAt w bounds i p ts with
      | error f => simp [hr, hms, bind, Except.bind] at h
      | ok rest =>
        intro e he
        rcases List.mem_cons.1 he with rfl | he
        · exact ⟨r, hr⟩
        · exact ih hms e he

end Rows

theorem exists_of_mapM {α β ε : Type} {f : α → Except ε β} {l : List α} {ys : List β}
    (h : l.mapM f = .ok ys) : ∀ x ∈ l, ∃ y, f x = .ok y := by
  induction l generalizing ys with
  | nil => simp
  | cons x l ih =>
    rw [List.mapM_cons] at h
    cases hx : f x with
    | error e => simp [hx, bind, Except.bind] at h
    | ok y =>
      cases hl : l.mapM f with
      | error e => simp [hx, hl, bind, Except.bind] at h
      | ok ys =>
        intro z hz
        rcases List.mem_cons.1 hz with rfl | hz
        · exact ⟨y, hx⟩
        · exact ih hl z hz

/-- What a monadic map gives, place by place. -/
theorem getElem?_of_mapM {α β ε : Type} {f : α → Except ε β} {l : List α} {ys : List β}
    (h : l.mapM f = .ok ys) {i : Nat} {y : β} :
    ys[i]? = some y ↔ ∃ x, l[i]? = some x ∧ f x = .ok y := by
  induction l generalizing ys i with
  | nil =>
    obtain rfl := Except.ok.inj h
    simp
  | cons x l ih =>
    rw [List.mapM_cons] at h
    cases hx : f x with
    | error e => simp [hx, bind, Except.bind] at h
    | ok z =>
      cases hl : l.mapM f with
      | error e => simp [hx, hl, bind, Except.bind] at h
      | ok zs =>
        simp only [hx, hl, bind, Except.bind] at h
        obtain rfl := Except.ok.inj h
        cases i with
        | zero => simp [hx]
        | succ i => simpa using ih hl

theorem exists_of_mem_mapM {α β ε : Type} {f : α → Except ε β} {l : List α} {ys : List β}
    (h : l.mapM f = .ok ys) {y : β} (hy : y ∈ ys) : ∃ x ∈ l, f x = .ok y := by
  obtain ⟨i, hi⟩ := List.mem_iff_getElem?.1 hy
  obtain ⟨x, hx, he⟩ := (getElem?_of_mapM h).1 hi
  exact ⟨x, List.mem_of_getElem? hx, he⟩

theorem exists_mapM {α β ε : Type} {f : α → Except ε β} {l : List α}
    (h : ∀ x ∈ l, ∃ y, f x = .ok y) :
    ∃ ys : List β, l.mapM f = .ok ys ∧
      ∀ (i : Nat) (x : α), l[i]? = some x → ∃ y, ys[i]? = some y ∧ f x = .ok y := by
  induction l with
  | nil => exact ⟨[], rfl, by simp⟩
  | cons x l ih =>
    obtain ⟨y, hy⟩ := h x (.head _)
    obtain ⟨ys, hys, hget⟩ := ih fun x hx => h x (.tail _ hx)
    refine ⟨y :: ys, by rw [List.mapM_cons, hy, hys]; rfl, fun i z hz => ?_⟩
    cases i with
    | zero =>
      obtain rfl := Option.some.inj hz
      exact ⟨y, rfl, hy⟩
    | succ i => exact hget i z hz

namespace NormalForm
variable {nf : NormalForm} {w : String}

theorem mem_usefulTerms {t : Terminal} {number : Nat} : (t, number) ∈ nf.usefulTerms ↔
    nf.terms.toList[number]? = some t ∧ ∃ r ∈ nf.rules, r.body = .term number := by
  simp only [usefulTerms, List.mem_filter, List.mem_zipIdx_iff_getElem?, Bool.not_eq_true',
    ← Bool.not_eq_true, List.isEmpty_iff, List.eq_nil_iff_forall_not_mem, not_forall, not_not]
  refine and_congr_right fun _ => ⟨?_, ?_⟩
  · rintro ⟨⟨r, k⟩, h⟩
    obtain ⟨hr, hb⟩ := mem_termRules.1 h
    exact ⟨r, List.mem_of_getElem? hr, hb⟩
  · rintro ⟨r, hr, hb⟩
    obtain ⟨k, hk⟩ := List.mem_iff_getElem?.1 hr
    exact ⟨(r, k), mem_termRules.2 ⟨hk, hb⟩⟩

variable [Pattern.Engine]

/-- What a scan of a word has: the boundaries of the word, and between any two of them the matches
of the terminals of use. -/
structure Scans (nf : NormalForm) (w : String) (s : Scan) : Prop where
  bounds_eq : s.bounds = Text.bounds w
  mem_matchesAt : ∀ {i l p q number : Nat}, 1 ≤ l → (Text.bounds w)[i]? = some p →
    (Text.bounds w)[i + l]? = some q →
    (⟨number, l⟩ ∈ s.matchesAt i ↔ ∃ t, (t, number) ∈ nf.usefulTerms ∧ t.Takes w p q)

theorem scan_eq (nf : NormalForm) (w : String) : nf.scan w = (do
    let rows ← (Text.bounds w).dropLast.zipIdx.mapM fun e =>
      scanAt w (Text.bounds w) e.2 e.1 nf.usefulTerms
    pure ⟨Text.bounds w, rows⟩) :=
  rfl

theorem exists_scan
    (h : ∀ e ∈ nf.usefulTerms, ∀ p ∈ (Text.bounds w).dropLast, ∃ r, e.1.accept w p = .ok r) :
    ∃ s, nf.scan w = .ok s ∧ nf.Scans w s := by
  obtain ⟨rows, hrows, hget⟩ := exists_mapM (l := (Text.bounds w).dropLast.zipIdx)
    (f := fun e => scanAt w (Text.bounds w) e.2 e.1 nf.usefulTerms) fun e he => by
      have hp := List.mem_of_getElem? (List.mem_zipIdx_iff_getElem?.1 he)
      obtain ⟨ms, hms, -⟩ := exists_scanAt (i := e.2)
        fun f hf => h f hf e.1 hp
      exact ⟨ms, hms⟩
  refine ⟨⟨Text.bounds w, rows⟩, by rw [scan_eq, hrows]; rfl, rfl, ?_⟩
  intro i l p q number hl hp hq
  have hpq := Text.lt_of_bounds_lt hp hq (by omega)
  have hi : (Text.bounds w).dropLast[i]? = some p := by
    have hlen := (List.getElem?_eq_some_iff.1 hq).1
    rw [List.getElem?_dropLast, if_pos (by omega), hp]
  obtain ⟨row, hrow, hscan⟩ := hget i (p, i) (by rw [List.getElem?_zipIdx, hi]; simp)
  obtain ⟨ms, hms, hmem⟩ := exists_scanAt (i := i) fun e he => h e he p (List.mem_of_getElem? hi)
  obtain rfl : row = ms := Except.ok.inj (hscan.symm.trans hms)
  rw [Scan.matchesAt, hrow, Option.getD_some, hmem]
  constructor
  · rintro ⟨t, q', j, ht, haccept, hj, hlen⟩
    have hlt := Terminal.lt_of_accept haccept
    have hij := (Text.bounds_lt_iff hp hj).1 hlt
    obtain rfl : j = i + l := by simp only at hlen; omega
    rw [hq, Option.some.injEq] at hj
    subst hj
    exact ⟨t, ht, (Terminal.takes_iff_of_lt hpq).2 ⟨List.mem_of_getElem? hq, haccept⟩⟩
  · rintro ⟨t, ht, htakes⟩
    exact ⟨t, q, i + l, ht, ((Terminal.takes_iff_of_lt hpq).1 htakes).2, hq, by simp⟩

/-- Every black box has an answer at the boundaries of a word, whatever it is. -/
def Answers (nf : NormalForm) (w : String) : Prop :=
  ∀ b, .blackBox b ∈ nf.terms.toList → ∀ p ∈ Text.bounds w, ∃ r, b.matcher w p = .ok r

/-- Terminals of use answer at boundaries if black boxes do. -/
theorem Answers.exists_scan (hw : nf.Answers w) : ∃ s, nf.scan w = .ok s ∧ nf.Scans w s := by
  apply NormalForm.exists_scan
  intro e he p hp
  have hp := List.dropLast_subset _ hp
  obtain ⟨hget, -⟩ := mem_usefulTerms.1 he
  refine Terminal.exists_accept (fun b hb => ?_) hp
  exact hw b (hb ▸ List.mem_of_getElem? hget) p hp

/-- If a scan was made, all terminals of use have answered. -/
theorem exists_accept_of_scan {s : Scan} (h : nf.scan w = .ok s) :
    ∀ e ∈ nf.usefulTerms, ∀ p ∈ (Text.bounds w).dropLast, ∃ r, e.1.accept w p = .ok r := by
  intro e he p hp
  rw [scan_eq] at h
  cases hrows : (Text.bounds w).dropLast.zipIdx.mapM
      fun e => scanAt w (Text.bounds w) e.2 e.1 nf.usefulTerms with
  | error f => simp [hrows, bind, Except.bind] at h
  | ok rows =>
    obtain ⟨i, hi⟩ := List.mem_iff_getElem?.1 hp
    obtain ⟨ms, hms⟩ := exists_of_mapM hrows (p, i) (List.mem_zipIdx_iff_getElem?.2 hi)
    exact exists_accept_of_scanAt hms e he

/-- The rows of a scan, by the characters where their matches start. -/
theorem getElem?_rows {s : Scan} (h : nf.scan w = .ok s) {i : Nat} {row : List Match} :
    s.rows[i]? = some row ↔ ∃ p, (Text.bounds w).dropLast[i]? = some p ∧
      scanAt w (Text.bounds w) i p nf.usefulTerms = .ok row := by
  rw [scan_eq] at h
  cases hrows : (Text.bounds w).dropLast.zipIdx.mapM
      fun e => scanAt w (Text.bounds w) e.2 e.1 nf.usefulTerms with
  | error f => simp [hrows, bind, Except.bind] at h
  | ok rows =>
    simp only [hrows, bind, Except.bind, pure, Except.pure, Except.ok.injEq] at h
    subst h
    simp [getElem?_of_mapM hrows, List.getElem?_zipIdx]

theorem exists_row {s : Scan} (h : nf.scan w = .ok s) {i p : Nat}
    (hp : (Text.bounds w).dropLast[i]? = some p) : ∃ row, s.rows[i]? = some row := by
  obtain ⟨row, hrow, -⟩ := exists_scanAt (i := i)
    fun e he => exists_accept_of_scan h e he p (List.mem_of_getElem? hp)
  exact ⟨row, (getElem?_rows h).2 ⟨p, hp, hrow⟩⟩

/-- A scan that was made has them. -/
theorem scans_of_scan {s : Scan} (h : nf.scan w = .ok s) : nf.Scans w s := by
  obtain ⟨s', hs', hscans⟩ := exists_scan (exists_accept_of_scan h)
  exact Except.ok.inj (h.symm.trans hs') ▸ hscans

end NormalForm
end ContextFree
