import Mathlib.Data.Int.Notation
import Mathlib.Data.List.Basic
import Mathlib.Tactic.Common

/-!
# Cookie jars

What a browser keeps of the `Set-Cookie` headers it receives, by the name of the cookie.
-/

namespace Statnive.CookieJar

/-- A `Set-Cookie` header. A cookie of negative age is dropped. -/
structure Cookie where
  name : String
  value : String
  path : String := "/"
  maxAge : ℤ
  httpOnly : Bool := true
  secure : Bool := false
  sameSite : String
  partitioned : Bool := false
  deriving DecidableEq

abbrev Jar := List (String × String)

def Jar.get (jar : Jar) (name : String) : Option String :=
  (jar.find? (fun kv => kv.1 = name)).map Prod.snd

def Jar.apply (jar : Jar) (c : Cookie) : Jar :=
  let rest := jar.filter (fun kv => kv.1 ≠ c.name)
  if c.maxAge < 0 then rest else (c.name, c.value) :: rest

def Jar.applyAll (jar : Jar) (cs : List Cookie) : Jar := cs.foldl Jar.apply jar

/-- What a cookie leaves under its name. -/
def Cookie.kept (c : Cookie) : Option String := if c.maxAge < 0 then none else some c.value

theorem get_apply (jar : Jar) (c : Cookie) (name : String) :
    (jar.apply c).get name = if name = c.name then c.kept else jar.get name := by
  have hrest : (jar.filter (fun kv => kv.1 ≠ c.name)).find? (fun kv => kv.1 = name) =
      if name = c.name then none else jar.find? (fun kv => kv.1 = name) := by
    rw [List.find?_filter]
    split_ifs with h
    · subst h
      simp
    · congr 1
      funext kv
      by_cases hkv : kv.1 = name <;> simp [hkv, h]
  simp only [Jar.apply, Jar.get, Cookie.kept]
  by_cases hage : c.maxAge < 0
  · rw [if_pos hage, hrest]
    split_ifs <;> rfl
  · rw [if_neg hage]
    by_cases h : name = c.name
    · subst h
      simp [hage]
    · rw [List.find?_cons_of_neg (by simpa using Ne.symm h), hrest, if_neg h, if_neg h]

theorem applyAll_append (jar : Jar) (cs ds : List Cookie) :
    jar.applyAll (cs ++ ds) = (jar.applyAll cs).applyAll ds := List.foldl_append

theorem get_applyAll_of_ne {cs : List Cookie} {name : String} (h : ∀ c ∈ cs, c.name ≠ name)
    (jar : Jar) : (jar.applyAll cs).get name = jar.get name := by
  induction cs generalizing jar with
  | nil => rfl
  | cons c cs ih =>
    obtain ⟨hc, hcs⟩ := List.forall_mem_cons.mp h
    calc ((jar.apply c).applyAll cs).get name = (jar.apply c).get name := ih hcs _
      _ = jar.get name := by rw [get_apply, if_neg (Ne.symm hc)]

/-- A name holds what it held, or what one of the cookies leaves. -/
theorem get_applyAll_cases (jar : Jar) (cs : List Cookie) (name : String) :
    (jar.applyAll cs).get name = jar.get name ∨
      ∃ c ∈ cs, c.name = name ∧ (jar.applyAll cs).get name = c.kept := by
  induction cs generalizing jar with
  | nil => exact Or.inl rfl
  | cons c cs ih =>
    rcases ih (jar.apply c) with hget | ⟨d, hd, hname, hget⟩
    · rw [get_apply] at hget
      split_ifs at hget with hname
      · exact Or.inr ⟨c, List.mem_cons_self, hname.symm, hget⟩
      · exact Or.inl hget
    · exact Or.inr ⟨d, List.mem_cons_of_mem _ hd, hname, hget⟩

end Statnive.CookieJar
