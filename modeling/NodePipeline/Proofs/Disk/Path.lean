import Mathlib.Data.List.TakeWhile
import NodePipeline.Disk.Path

/-!
# Paths name by name

The texts of paths that are joined from a directory and a proper name, and the
names on the way to a directory above a path.
-/

namespace NodePipeline.Path

/-! ## Names of a path -/

/-- The names between the slashes of a text. -/
def namesOf (cs : List Char) : List String :=
  ((cs.splitOn '/').filter (!·.isEmpty)).map String.ofList

theorem names_eq (path : String) : names path = namesOf path.toList := rfl

@[simp] theorem namesOf_nil : namesOf [] = [] := rfl

theorem namesOf_append_slash (a b : List Char) :
    namesOf (a ++ '/' :: b) = namesOf a ++ namesOf b := by
  simp only [namesOf, List.splitOn_append_cons_self, List.filter_append, List.map_append]

/-- A name that leads one step down. -/
structure IsName (name : String) : Prop where
  nonempty : name.toList ≠ []
  noSlash : '/' ∉ name.toList
  notHere : name ≠ "."
  notAbove : name ≠ ".."

variable {directory name other : String}

theorem namesOf_name (h : IsName name) : namesOf name.toList = [name] := by
  have hfull : name.toList.isEmpty = false := by simpa using h.nonempty
  unfold namesOf
  rw [List.splitOn_eq_singleton h.noSlash, List.filter_cons, hfull]
  simp

theorem IsName.isAbsolute_eq (h : IsName name) : isAbsolute name = false := by
  unfold isAbsolute
  cases hname : name.toList with
  | nil => rfl
  | cons c rest =>
      have hc : c ≠ '/' := by
        rintro rfl
        exact h.noSlash (hname ▸ List.mem_cons_self)
      simpa using hc

/-! ## Joined paths -/

/-- What stands before the name in a joined path. -/
def front (directory : String) : List Char :=
  if directory.isEmpty || directory.toList.getLast? == some '/' then directory.toList
  else directory.toList ++ ['/']

theorem front_cases (directory : String) :
    front directory = [] ∧ directory = "" ∨ ∃ cs, front directory = cs ++ ['/'] := by
  unfold front
  by_cases hempty : directory.isEmpty = true
  · left
    have : directory = "" := by simpa using hempty
    subst this
    exact ⟨rfl, rfl⟩
  · by_cases hslash : directory.toList.getLast? = some '/'
    · right
      obtain ⟨cs, hcs⟩ := List.getLast?_eq_some_iff.1 hslash
      exact ⟨cs, by simp [hcs]⟩
    · right
      exact ⟨directory.toList, by simp [hempty, hslash]⟩

theorem toList_join (h : IsName name) :
    (join directory name).toList = front directory ++ name.toList := by
  unfold join front
  rw [if_neg (by simp [h.isAbsolute_eq])]
  split <;> simp

theorem namesOf_front (directory : String) (cs : List Char) :
    namesOf (front directory ++ cs) = names directory ++ namesOf cs := by
  unfold front
  by_cases hempty : directory.isEmpty = true
  · have : directory = "" := by simpa using hempty
    subst this
    rfl
  · by_cases hslash : directory.toList.getLast? = some '/'
    · obtain ⟨front, hfront⟩ := List.getLast?_eq_some_iff.1 hslash
      rw [if_pos (by simp [hslash]), names_eq, hfront, List.append_assoc, List.singleton_append,
        namesOf_append_slash, namesOf_append_slash]
      simp
    · rw [if_neg (by simp [hempty, hslash]), List.append_assoc, List.singleton_append,
        namesOf_append_slash]
      rfl

theorem names_join (h : IsName name) : names (join directory name) = names directory ++ [name] := by
  rw [names_eq, toList_join h, namesOf_front, namesOf_name h]

theorem isAbsolute_join (h : IsName name) :
    isAbsolute (join directory name) = isAbsolute directory := by
  unfold isAbsolute
  rw [toList_join h]
  unfold front
  by_cases hempty : directory.isEmpty = true
  · have : directory = "" := by simpa using hempty
    subst this
    exact h.isAbsolute_eq
  · have hfull : directory.toList ≠ [] := by simpa using hempty
    cases hdir : directory.toList with
    | nil => exact absurd hdir hfull
    | cons c rest => split <;> rfl

theorem join_ne_empty (h : IsName name) : (join directory name).isEmpty = false := by
  have hfull : (join directory name).toList ≠ [] := by
    rw [toList_join h]
    simp [h.nonempty]
  simpa using hfull

theorem endsInSlash_join (h : IsName name) : endsInSlash (join directory name) = false := by
  unfold endsInSlash
  rw [toList_join h, List.getLast?_append]
  cases hlast : name.toList.getLast? with
  | none => exact absurd (List.getLast?_eq_none_iff.1 hlast) h.nonempty
  | some c =>
      have hc : c ≠ '/' := by
        rintro rfl
        exact h.noSlash (List.mem_of_getLast? hlast)
      simpa using hc

theorem join_inj (h : IsName name) (h' : IsName other)
    (heq : join directory name = join directory other) : name = other := by
  have := congrArg String.toList heq
  rw [toList_join h, toList_join h'] at this
  exact String.toList_inj.1 (List.append_cancel_left this)

/-! ## Siblings and parents of joined paths -/

theorem dropTail_suffix (cs : List Char) : dropTail cs <:+ cs := by
  fun_induction dropTail cs with
  | case1 rest ih => exact ih.trans (List.suffix_cons _ _)
  | case2 rest ih => exact ih.trans ((List.suffix_cons _ _).trans (List.suffix_cons _ _))
  | case3 cs => exact List.suffix_refl _

/-- Nothing is dropped from the end of a name. -/
theorem dropTail_name (h : IsName name) (before : List Char) :
    dropTail (name.toList.reverse ++ before) = name.toList.reverse ++ before := by
  have hslash : '/' ∉ name.toList.reverse := by simpa using h.noSlash
  have hdot : name.toList.reverse ≠ ['.'] := by
    intro heq
    have : name.toList = ['.'] := by simpa using congrArg List.reverse heq
    exact h.notHere (String.toList_inj.1 this)
  cases hrev : name.toList.reverse with
  | nil => exact absurd (by simpa using hrev) h.nonempty
  | cons c rest =>
      rw [hrev] at hslash hdot
      rw [List.cons_append]
      unfold dropTail
      split
      · simp_all
      · next more heq =>
          obtain ⟨rfl, hrest⟩ := List.cons.inj heq
          cases rest with
          | nil => exact absurd rfl hdot
          | cons d rest => simp_all
      · rfl

theorem reverse_front (directory : String) :
    (front directory).reverse = [] ∨ ∃ cs, (front directory).reverse = '/' :: cs := by
  rcases front_cases directory with ⟨hfront, -⟩ | ⟨cs, hcs⟩
  · exact Or.inl (by rw [hfront]; rfl)
  · exact Or.inr ⟨cs.reverse, by rw [hcs, List.reverse_append]; rfl⟩

theorem backwards_join (h : IsName name) :
    backwards (join directory name) = name.toList.reverse ++ (front directory).reverse := by
  rw [backwards, toList_join h, List.reverse_append, dropTail_name h]

theorem takeWhile_name (h : IsName name) :
    (name.toList.reverse ++ (front directory).reverse).takeWhile (· != '/')
      = name.toList.reverse := by
  have hname : ∀ c ∈ name.toList.reverse, (c != '/') = true := by
    intro c hc
    have : c ≠ '/' := by
      rintro rfl
      exact h.noSlash (List.mem_reverse.1 hc)
    simpa using this
  rw [List.takeWhile_append_of_pos hname]
  rcases reverse_front directory with hempty | ⟨cs, hcs⟩
  · simp [hempty]
  · simp [hcs]

theorem dropWhile_name (h : IsName name) :
    (name.toList.reverse ++ (front directory).reverse).dropWhile (· != '/')
      = (front directory).reverse := by
  have hname : ∀ c ∈ name.toList.reverse, (c != '/') = true := by
    intro c hc
    have : c ≠ '/' := by
      rintro rfl
      exact h.noSlash (List.mem_reverse.1 hc)
    simpa using this
  rw [List.dropWhile_append_of_pos hname]
  rcases reverse_front directory with hempty | ⟨cs, hcs⟩
  · simp [hempty]
  · simp [hcs]

theorem fileName?_join (h : IsName name) : fileName? (join directory name) = some name := by
  have hlast : lastName (join directory name) = name.toList := by
    rw [lastName, backwards_join h, takeWhile_name h, List.reverse_reverse]
  have hne : ¬(name.toList = [] ∨ name.toList = ['.'] ∨ name.toList = ['.', '.']) := by
    rintro (hnil | hdot | hdots)
    · exact h.nonempty hnil
    · exact h.notHere (String.toList_inj.1 hdot)
    · exact h.notAbove (String.toList_inj.1 hdots)
  unfold fileName?
  rw [hlast]
  simp only [if_neg hne, String.ofList_toList]

/-- The text does not end in something that names nothing. -/
structure Settled (path : String) : Prop where
  nonempty : path.toList ≠ []
  dropTail_eq : dropTail path.toList.reverse = path.toList.reverse

theorem settled_join (h : IsName name) : Settled (join directory name) where
  nonempty := by simp [toList_join h, h.nonempty]
  dropTail_eq := by
    have := @backwards_join directory name h
    rw [backwards] at this
    rw [this, toList_join h, List.reverse_append]

theorem front_of_settled (hdir : Settled directory) :
    front directory = directory.toList ++ ['/'] := by
  have hempty : directory.isEmpty = false := by simpa using hdir.nonempty
  have hslash : directory.toList.getLast? ≠ some '/' := by
    intro hlast
    obtain ⟨cs, hcs⟩ := List.getLast?_eq_some_iff.1 hlast
    have htail := hdir.dropTail_eq
    rw [hcs, List.reverse_append] at htail
    have hlen : (dropTail ('/' :: cs.reverse)).length ≤ cs.length := by
      rw [dropTail]
      simpa using (dropTail_suffix cs.reverse).length_le
    simp only [List.reverse_singleton, List.singleton_append] at htail
    rw [htail, List.length_cons, List.length_reverse] at hlen
    omega
  unfold front
  rw [if_neg (by simp [hempty, hslash])]

theorem parent?_join (hdir : Settled directory) (h : IsName name) :
    parent? (join directory name) = some directory := by
  have hrev : (front directory).reverse = '/' :: directory.toList.reverse := by
    rw [front_of_settled hdir, List.reverse_append]
    rfl
  have hback := @backwards_join directory name h
  have hdrop : dropTail ((name.toList.reverse ++ (front directory).reverse).dropWhile (· != '/'))
      = directory.toList.reverse := by
    rw [dropWhile_name h, hrev, dropTail, hdir.dropTail_eq]
  have hfull : directory.toList.reverse.isEmpty = false := by simpa using hdir.nonempty
  unfold parent?
  rw [hback]
  cases hchars : name.toList.reverse ++ (front directory).reverse with
  | nil => exact absurd (List.append_eq_nil_iff.1 hchars).1 (by simpa using h.nonempty)
  | cons c rest =>
      rw [hchars] at hdrop
      simp only [hdrop, hfull, Bool.false_and, Bool.false_eq_true, if_false,
        List.reverse_reverse, String.ofList_toList]

/-- A sibling of a joined path is joined to the same directory. -/
theorem withFileName_join (hdir : Settled directory) (h : IsName name) (other : String) :
    withFileName (join directory name) other = join directory other := by
  rw [withFileName, fileName?_join h, parent?_join hdir h]
  rfl

theorem splitExtension_of_noDot {cs : List Char} (h : '.' ∉ cs) : splitExtension cs = (cs, none) := by
  have hnone : cs.reverse.dropWhile (· != '.') = [] := by
    rw [List.dropWhile_eq_nil_iff]
    intro c hc
    have : c ≠ '.' := by
      rintro rfl
      exact h (List.mem_reverse.1 hc)
    simpa using this
  rw [splitExtension, hnone]

/-- A name without dots gets the extension at its end. -/
theorem withExtension_join (h : IsName name) (hdot : '.' ∉ name.toList) {ext : String}
    (hext : IsName (name ++ "." ++ ext)) :
    withExtension (join directory name) ext = join directory (name ++ "." ++ ext) := by
  have hbefore : (backwards (join directory name)).drop name.length
      = (front directory).reverse := by
    rw [backwards_join h, ← String.length_toList, ← List.length_reverse, List.drop_left]
  apply String.toList_inj.1
  unfold withExtension
  rw [fileName?_join h, toList_join hext]
  simp [hbefore, splitExtension_of_noDot hdot]

/-- The extension of a name is what follows its last dot. -/
theorem extension?_append {stem ext : String} (h : IsName (stem ++ "." ++ ext))
    (hstem : stem.toList ≠ []) (hext : '.' ∉ ext.toList) :
    extension? (stem ++ "." ++ ext) = some ext := by
  have hfile : fileName? (stem ++ "." ++ ext) = some (stem ++ "." ++ ext) :=
    @fileName?_join "" _ h ▸ by rw [join, if_neg (by simp [h.isAbsolute_eq])]; simp
  have hchars : ∀ c ∈ ext.toList.reverse, (c != '.') = true := by
    intro c hc
    have : c ≠ '.' := by
      rintro rfl
      exact hext (List.mem_reverse.1 hc)
    simpa using this
  have hrev : (stem ++ "." ++ ext).toList.reverse
      = ext.toList.reverse ++ '.' :: stem.toList.reverse := by simp
  have hsplit : splitExtension (stem ++ "." ++ ext).toList = (stem.toList, some ext.toList) := by
    unfold splitExtension
    rw [hrev, List.dropWhile_append_of_pos hchars, List.takeWhile_append_of_pos hchars]
    simp [hstem]
  unfold extension?
  rw [hfile]
  simp only [bind, Option.bind, hsplit, pure, String.ofList_toList]

/-! ## The names on the way -/

theorem namesOf_dropTail (cs : List Char) :
    namesOf (dropTail cs).reverse <+: namesOf cs.reverse := by
  fun_induction dropTail cs with
  | case1 rest ih =>
      rw [List.reverse_cons, namesOf_append_slash, namesOf_nil, List.append_nil]
      exact ih
  | case2 rest ih =>
      rw [List.reverse_cons, List.reverse_cons, List.append_assoc, List.singleton_append,
        namesOf_append_slash]
      exact ih.trans (List.prefix_append _ _)
  | case3 cs => exact List.prefix_refl _

theorem namesOf_dropWhile (cs : List Char) :
    namesOf (cs.dropWhile (· != '/')).reverse <+: namesOf cs.reverse := by
  have hsplit := List.takeWhile_append_dropWhile (p := (· != '/')) (l := cs)
  cases hdrop : cs.dropWhile (· != '/') with
  | nil => simp
  | cons c rest =>
      obtain rfl : c = '/' := by
        have := List.head?_dropWhile_not (· != '/') cs
        simpa [hdrop] using this
      rw [hdrop] at hsplit
      rw [← hsplit, List.reverse_append, List.reverse_cons, List.append_assoc,
        List.singleton_append, namesOf_append_slash, namesOf_append_slash, namesOf_nil,
        List.append_nil]
      exact List.prefix_append _ _

theorem parent?_eq_some {path up : String} (h : parent? path = some up) :
    ∃ above, above = dropTail ((backwards path).dropWhile (· != '/')) ∧
      up = if above.isEmpty && isAbsolute path then "/" else String.ofList above.reverse := by
  unfold parent? at h
  split at h
  · cases h
  · exact ⟨_, rfl, (Option.some.inj h).symm⟩

/-- The names of the directory above a path are the first of its own. -/
theorem names_of_parent? {path up : String} (h : parent? path = some up) :
    names up <+: names path := by
  have hback : namesOf (backwards path).reverse <+: names path := by
    have := namesOf_dropTail path.toList.reverse
    rwa [List.reverse_reverse] at this
  obtain ⟨above, rfl, rfl⟩ := parent?_eq_some h
  split
  · exact List.nil_prefix
  · rw [names_eq, String.toList_ofList]
    exact (namesOf_dropTail _).trans ((namesOf_dropWhile _).trans hback)

theorem isAbsolute_of_parent? {path up : String} (h : parent? path = some up) :
    up = "" ∨ isAbsolute up = isAbsolute path := by
  obtain ⟨above, habove, rfl⟩ := parent?_eq_some h
  have hsuffix : above <:+ path.toList.reverse := by
    rw [habove]
    exact (dropTail_suffix _).trans ((List.dropWhile_suffix _).trans (dropTail_suffix _))
  cases above with
  | nil =>
      by_cases habs : isAbsolute path = true
      · exact Or.inr (by simp [habs]; rfl)
      · exact Or.inl (by simp [habs])
  | cons c rest =>
      right
      obtain ⟨before, hbefore⟩ := hsuffix
      have hpath : path.toList = (c :: rest).reverse ++ before.reverse := by
        rw [← List.reverse_append, hbefore, List.reverse_reverse]
      unfold isAbsolute
      rw [if_neg (by simp), String.toList_ofList, hpath, List.head?_append]
      cases hhead : (c :: rest).reverse.head? with
      | none => simp at hhead
      | some d => rfl

/-- Every directory that leads to a path is reached by the first of its names. -/
theorem of_mem_ancestors {path up : String} (h : up ∈ ancestors path) :
    names up <+: names path ∧ isAbsolute up = isAbsolute path ∧ up.isEmpty = false := by
  suffices hsteps : ∀ steps path, up ∈ ancestorsUpTo steps path →
      names up <+: names path ∧ isAbsolute up = isAbsolute path ∧ up.isEmpty = false from
    hsteps _ path h
  intro steps
  induction steps with
  | zero => simp [ancestorsUpTo]
  | succ steps ih =>
      intro path h
      unfold ancestorsUpTo at h
      by_cases hempty : path.isEmpty = true
      · simp [hempty] at h
      · rw [if_neg hempty] at h
        rcases List.mem_cons.1 h with rfl | h
        · exact ⟨List.prefix_refl _, rfl, by simpa using hempty⟩
        · cases hparent : parent? path with
          | none => simp [hparent] at h
          | some above =>
              rw [hparent] at h
              obtain ⟨hnames, habs, hfull⟩ := ih above h
              refine ⟨hnames.trans (names_of_parent? hparent), ?_, hfull⟩
              rcases isAbsolute_of_parent? hparent with rfl | habove
              · cases steps <;> simp [ancestorsUpTo] at h
              · rw [habs, habove]

end NodePipeline.Path
