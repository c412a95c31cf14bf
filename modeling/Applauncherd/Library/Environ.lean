import Mathlib.Data.List.Nodup

namespace Applauncherd.Library.Environ

abbrev Str := List UInt8

/-- The bytes of a C string end at the first NUL. -/
def cstr (buf : Str) : Str := buf.takeWhile (· != 0)

def equals : UInt8 := 61

def name (entry : Str) : Str := entry.takeWhile (· != equals)

def value (entry : Str) : Str := (entry.dropWhile (· != equals)).tail

/-- `putenv` replaces the entry of the same name or adds one at the end. -/
def putenv (environ : List Str) (entry : Str) : List Str :=
  match environ.findIdx? (name · == name entry) with
  | some i => environ.set i entry
  | none => environ ++ [entry]

def getenv (environ : List Str) (n : Str) : Option Str :=
  (environ.find? (name · == n)).map value

theorem cstr_append_nul {s : Str} (h : 0 ∉ s) (t : Str) : cstr (s ++ 0 :: t) = s := by
  unfold cstr
  rw [List.takeWhile_append_of_pos]
  · simp
  · intro b hb
    simpa using fun h0 : b = 0 ↦ h (h0 ▸ hb)

theorem putenv_new {environ : List Str} {entry : Str} (h : name entry ∉ environ.map name) :
    putenv environ entry = environ ++ [entry] := by
  unfold putenv
  rw [List.findIdx?_eq_none_iff.mpr]
  intro e he
  simpa using fun hn : name e = name entry ↦ h (List.mem_map.mpr ⟨e, he, hn⟩)

theorem foldl_putenv {environ entries : List Str}
    (h : ((environ ++ entries).map name).Nodup) :
    entries.foldl putenv environ = environ ++ entries := by
  induction entries generalizing environ with
  | nil => simp
  | cons e es ih =>
    have hnew : name e ∉ environ.map name := by
      intro he
      rw [List.map_append, List.nodup_append] at h
      exact h.2.2 _ he _ (by simp) rfl
    rw [List.foldl_cons, putenv_new hnew, ih]
    · simp
    · simpa using h

theorem getenv_eq_some_iff {environ : List Str} (h : (environ.map name).Nodup) (n v : Str) :
    getenv environ n = some v ↔ ∃ e ∈ environ, name e = n ∧ value e = v := by
  induction environ with
  | nil => simp [getenv]
  | cons e es ih =>
    obtain ⟨hne, hes⟩ := List.nodup_cons.mp h
    by_cases he : name e = n
    · subst n
      have hnot : ∀ x ∈ es, name x ≠ name e := fun x hx hxe ↦
        hne (List.mem_map.mpr ⟨x, hx, hxe⟩)
      simp only [getenv, List.find?_cons, beq_self_eq_true, Option.map_some, Option.some.injEq,
        List.mem_cons]
      constructor
      · intro hv
        exact ⟨e, .inl rfl, rfl, hv⟩
      · rintro ⟨x, rfl | hx, hn, hv⟩
        · exact hv
        · exact absurd hn (hnot x hx)
    · have hcons : getenv (e :: es) n = getenv es n := by simp [getenv, he]
      rw [hcons, ih hes]
      constructor
      · intro hex
        obtain ⟨x, hx, hn⟩ := hex
        exact ⟨x, .tail _ hx, hn⟩
      · intro hex
        obtain ⟨x, hx, hn⟩ := hex
        rcases List.mem_cons.mp hx with rfl | hx
        · exact absurd hn.1 he
        · exact ⟨x, hx, hn⟩

theorem putenv_cons (e : Str) (es : List Str) (entry : Str) :
    putenv (e :: es) entry = if name e = name entry then entry :: es else e :: putenv es entry := by
  unfold putenv
  rw [List.findIdx?_cons]
  by_cases h : name e = name entry
  · simp [h]
  · simp only [beq_iff_eq, h, if_false]
    cases es.findIdx? (name · == name entry) <;> rfl

theorem mem_putenv {environ : List Str} {entry e : Str} (h : e ∈ putenv environ entry) :
    e = entry ∨ e ∈ environ := by
  induction environ with
  | nil => exact .inl (List.mem_singleton.mp h)
  | cons e' es ih =>
    rw [putenv_cons] at h
    split_ifs at h
    · exact (List.mem_cons.mp h).imp_right (List.mem_cons_of_mem _)
    · obtain rfl | h := List.mem_cons.mp h
      · exact .inr List.mem_cons_self
      · exact (ih h).imp_right (List.mem_cons_of_mem _)

theorem putenv_length_le (environ : List Str) (entry : Str) :
    (putenv environ entry).length ≤ environ.length + 1 := by
  unfold putenv
  split <;> simp

theorem putenv_ne_nil (environ : List Str) (entry : Str) : putenv environ entry ≠ [] := by
  cases environ with
  | nil => exact List.cons_ne_nil _ _
  | cons e es =>
    rw [putenv_cons]
    split_ifs <;> exact List.cons_ne_nil _ _

theorem putenv_names {environ : List Str} (h : (environ.map name).Nodup) (entry : Str) :
    ((putenv environ entry).map name).Nodup := by
  induction environ with
  | nil => exact List.nodup_singleton _
  | cons e es ih =>
    obtain ⟨he, hes⟩ := List.nodup_cons.mp h
    rw [putenv_cons]
    split_ifs with hn
    · rw [List.map_cons, ← hn]
      exact h
    · refine List.nodup_cons.mpr ⟨fun hm ↦ ?_, ih hes⟩
      obtain ⟨e', he', hname⟩ := List.mem_map.mp hm
      obtain rfl | he' := mem_putenv he'
      · exact hn hname.symm
      · exact he (List.mem_map.mpr ⟨e', he', hname⟩)

theorem getenv_cons (e : Str) (es : List Str) (n : Str) :
    getenv (e :: es) n = if name e = n then some (value e) else getenv es n := by
  unfold getenv
  rw [List.find?_cons]
  by_cases h : name e = n
  · simp [h]
  · simp [beq_eq_false_iff_ne.mpr h, h]

theorem getenv_putenv (environ : List Str) (entry n : Str) :
    getenv (putenv environ entry) n =
      if n = name entry then some (value entry) else getenv environ n := by
  induction environ with
  | nil =>
    change getenv [entry] n = _
    rw [getenv_cons]
    simp only [eq_comm]
  | cons e es ih =>
    rw [putenv_cons, getenv_cons]
    by_cases he : name e = name entry
    · rw [if_pos he, getenv_cons, ← he]
      by_cases hn : n = name e
      · simp [hn]
      · simp [hn, Ne.symm hn]
    · rw [if_neg he, getenv_cons, ih]
      by_cases hn : n = name entry
      · subst hn
        rw [if_neg he, if_pos rfl, if_pos rfl]
      · rw [if_neg hn, if_neg hn]

end Applauncherd.Library.Environ
