import Rustack.Events.Delivery.Routing
import Rustack.Lib.Needle

/-!
# Input transformers

A transformer puts the texts of values in place of its placeholders, one key after another and
each time in all of the result so far.  This is a simultaneous substitution, whatever the event
and whatever the order of the keys, where there is one key at most or the template has none of the
placeholders.
-/

namespace Rustack.Events

open Needle
open List hiding replace replace_nil

def placeholder (key : String) : List Char := '<' :: (key.toList ++ ['>'])

/-- The replacements for one key after another. -/
def replaceAll (text : String → List Char) (keys : List String) (template : List Char) :
    List Char :=
  keys.foldl (fun result key => replace (placeholder key) (text key) result) template

/-! ## Simultaneous substitution -/

inductive Piece where
  | char (c : Char)
  | slot (key : String)

/-- The template in one pass: a placeholder is a slot, and what begins no placeholder stands for
itself. -/
inductive Cut (keys : List String) : List Char → List Piece → Prop where
  | nil : Cut keys [] []
  | slot {key : String} {rest : List Char} {pieces : List Piece} : key ∈ keys →
      Cut keys rest pieces → Cut keys (placeholder key ++ rest) (.slot key :: pieces)
  | char {c : Char} {rest : List Char} {pieces : List Piece} :
      (∀ key ∈ keys, ¬placeholder key <+: c :: rest) → Cut keys rest pieces →
        Cut keys (c :: rest) (.char c :: pieces)

def Piece.fill (text : String → List Char) : Piece → List Char
  | .char c => [c]
  | .slot key => text key

def fill (text : String → List Char) (pieces : List Piece) : List Char :=
  pieces.flatMap (Piece.fill text)

/-- The text of the value at the path of a key. -/
def textOf {Net : Type} (p : Provider Net) (transformer : InputTransformer) (event : Value)
    (key : String) : List Char :=
  (p.valueStr (applyJsonPath event ((transformer.inputPathsMap.lookup key).getD ""))).toList

/-- A target that has the transformer, with its paths in some order. -/
def transformed (target : Target) (transformer : InputTransformer)
    (entries : List (String × String)) : Target :=
  { target with
    input := none
    inputPath := none
    inputTransformer := some { transformer with inputPathsMap := entries } }

/-- For all events and all orders the body is the template with its slots filled. -/
def Simultaneous {Net : Type} (p : Provider Net) (transformer : InputTransformer) : Prop :=
  ∃ pieces, Cut (transformer.inputPathsMap.map Prod.fst) transformer.inputTemplate.toList pieces ∧
    ∀ (target : Target) (event : Json) (entries : List (String × String)),
      entries.Perm transformer.inputPathsMap →
        (p.applyInputTransform (transformed target transformer entries) event.value).toList =
          fill (textOf p transformer event.value) pieces

/-! ## Placeholders -/

theorem placeholder_ne_nil (key : String) : placeholder key ≠ [] := cons_ne_nil _ _

theorem placeholder_inj {key key' : String} (h : placeholder key = placeholder key') :
    key = key' :=
  String.toList_inj.mp (append_cancel_right (cons.inj h).2)

theorem head_placeholder (key : String) :
    (placeholder key).head (placeholder_ne_nil key) ≠ 'x' := by
  change '<' ≠ 'x'
  decide

theorem getLast_placeholder (key : String) :
    (placeholder key).getLast (placeholder_ne_nil key) ≠ 'x' := by
  have hlast : (placeholder key).getLast (placeholder_ne_nil key) = '>' := by
    simp [placeholder]
  rw [hlast]
  decide

/-- A text within two paddings. -/
def block (n : ℕ) (middle : List Char) : List Char :=
  replicate n 'x' ++ (middle ++ replicate n 'x')

theorem length_block (n : ℕ) (middle : List Char) :
    (block n middle).length = 2 * n + middle.length := by
  simp only [block, length_append, length_replicate]
  omega

theorem replace_block {key : String} {n : ℕ} (hlength : (placeholder key).length ≤ n)
    (text front middle rest : List Char) :
    replace (placeholder key) text (front ++ (block n middle ++ rest)) =
      replace (placeholder key) text front ++
        (block n (replace (placeholder key) text middle) ++
          replace (placeholder key) text rest) := by
  have hpad := replace_pad (placeholder_ne_nil key) (head_placeholder key)
    (getLast_placeholder key) hlength text
  rw [block, append_assoc, append_assoc, hpad, hpad, block, append_assoc,
    append_assoc]

theorem replace_blocks {key : String} {n : ℕ} (hlength : (placeholder key).length ≤ n)
    (text middle : List Char) (parts : List (List Char)) :
    replace (placeholder key) text (intercalate (block n middle) parts) =
      intercalate (block n (replace (placeholder key) text middle))
        (parts.map (replace (placeholder key) text)) := by
  induction parts with
  | nil => rfl
  | cons part parts ih =>
      cases parts with
      | nil => simp
      | cons other parts =>
          rw [intercalate_cons_cons, append_assoc, replace_block hlength, ih,
            map_cons, map_cons, map_cons, intercalate_cons_cons,
            append_assoc]

theorem intercalate_append {sep : List Char} {parts parts' : List (List Char)} (h : parts ≠ [])
    (h' : parts' ≠ []) : intercalate sep (parts ++ parts') =
      intercalate sep parts ++ (sep ++ intercalate sep parts') := by
  induction parts with
  | nil => exact absurd rfl h
  | cons part parts ih =>
      cases parts with
      | nil =>
          rw [singleton_append, intercalate_cons_of_ne_nil h', intercalate_singleton,
            append_assoc]
      | cons other parts =>
          rw [cons_append, intercalate_cons_of_ne_nil (by simp), ih (by simp),
            intercalate_cons_cons, append_assoc, append_assoc, append_assoc]

/-- The parts of the parts. -/
theorem intercalate_flatMap {sep : List Char} {f : List Char → List (List Char)}
    (hf : ∀ part, f part ≠ []) (parts : List (List Char)) :
    intercalate sep (parts.map fun part => intercalate sep (f part)) =
      intercalate sep (parts.flatMap f) := by
  induction parts with
  | nil => rfl
  | cons part parts ih =>
      cases parts with
      | nil => simp
      | cons other parts =>
          have hrest : (other :: parts).flatMap f ≠ [] := by
            rw [flatMap_cons]
            exact append_ne_nil_of_left_ne_nil (hf other) _
          have hall : (part :: other :: parts).flatMap f = f part ++ (other :: parts).flatMap f :=
            flatMap_cons
          rw [map_cons, intercalate_cons_of_ne_nil (by simp), ih, hall,
            intercalate_append (hf part) hrest, append_assoc]

theorem countP_intercalate (q : Char → Bool) (sep : List Char) {parts : List (List Char)}
    (h : parts ≠ []) : (intercalate sep parts).countP q =
      (parts.map (countP q)).sum + (parts.length - 1) * sep.countP q := by
  induction parts with
  | nil => exact absurd rfl h
  | cons part parts ih =>
      cases parts with
      | nil => simp
      | cons other parts =>
          rw [intercalate_cons_cons, countP_append, countP_append, ih (by simp),
            map_cons (l := other :: parts), sum_cons]
          simp only [length_cons, Nat.add_sub_cancel]
          ring

theorem length_intercalate (sep : List Char) {parts : List (List Char)} (h : parts ≠ []) :
    (intercalate sep parts).length =
      (parts.map length).sum + (parts.length - 1) * sep.length := by
  have hcount := countP_intercalate (fun _ => true) sep h
  simpa only [countP_true, countP_eq_length_filter, filter_true] using hcount

/-! ## One key at most, or no placeholder -/

theorem replaceAll_of_not_isInfix (text : String → List Char) {keys : List String}
    {template : List Char} (h : ∀ key ∈ keys, ¬placeholder key <:+: template) :
    replaceAll text keys template = template := by
  induction keys with
  | nil => rfl
  | cons key keys ih =>
      obtain ⟨hkey, hkeys⟩ := forall_mem_cons.mp h
      rw [replaceAll, foldl_cons, replace_of_not_infix hkey]
      exact ih hkeys

theorem cut_of_not_infix {keys : List String} {template : List Char}
    (h : ∀ key ∈ keys, ¬placeholder key <:+: template) :
    Cut keys template (template.map .char) := by
  induction template with
  | nil => exact .nil
  | cons c template ih =>
      refine .char (fun key hkey hstart => h key hkey hstart.isInfix)
        (ih fun key hkey hwithin => ?_)
      exact h key hkey (hwithin.trans (suffix_cons c template).isInfix)

theorem fill_chars (text : String → List Char) (template : List Char) :
    fill text (template.map .char) = template := by
  induction template with
  | nil => rfl
  | cons c template ih => exact congrArg (c :: ·) ih

/-- One key is replaced in one pass. -/
theorem exists_cut (key : String) (template : List Char) : ∃ pieces, Cut [key] template pieces ∧
    ∀ text : String → List Char, replace (placeholder key) (text key) template =
      fill text pieces := by
  induction hlength : template.length using Nat.strong_induction_on generalizing template with
  | _ size ih =>
      subst hlength
      by_cases hstart : placeholder key <+: template
      · obtain ⟨rest, rfl⟩ := hstart
        have hpos := length_pos_iff.mpr (placeholder_ne_nil key)
        obtain ⟨pieces, hcut, hfill⟩ := ih rest.length (by rw [length_append]; omega) rest rfl
        refine ⟨.slot key :: pieces, .slot (.head _) hcut, fun text => ?_⟩
        rw [replace_append_self (placeholder_ne_nil key), hfill]
        rfl
      · cases template with
        | nil => exact ⟨[], .nil, fun text => rfl⟩
        | cons c rest =>
            obtain ⟨pieces, hcut, hfill⟩ := ih rest.length (Nat.lt_succ_self _) rest rfl
            refine ⟨.char c :: pieces, .char (fun other hother => ?_) hcut, fun text => ?_⟩
            · rwa [mem_singleton.mp hother]
            · rw [replace_cons_of_not hstart, hfill]
              rfl

/-! ## Several keys -/

variable {keys : List String} {template : List Char} {pieces : List Piece}

/-- A slot is a placeholder of the template. -/
theorem Cut.infix_of_slot (h : Cut keys template pieces) {key : String}
    (hslot : Piece.slot key ∈ pieces) : key ∈ keys ∧ placeholder key <:+: template := by
  induction h with
  | nil => cases hslot
  | @slot other rest pieces hother _ ih =>
      rcases mem_cons.mp hslot with heq | hslot
      · cases heq
        exact ⟨hother, (prefix_append _ _).isInfix⟩
      · obtain ⟨hkey, hwithin⟩ := ih hslot
        exact ⟨hkey, hwithin.trans (suffix_append _ _).isInfix⟩
  | @char c rest pieces _ _ ih =>
      rcases mem_cons.mp hslot with heq | hslot
      · cases heq
      · obtain ⟨hkey, hwithin⟩ := ih hslot
        exact ⟨hkey, hwithin.trans (suffix_cons c rest).isInfix⟩

/-- The texts that the keys have where a string stands at the end of one path: the keys with that
path have the string, those with a part of it an object around the string, and the others
nothing. -/
structure Attack (ends around : String → Prop) (text : List Char → String → List Char) : Prop where
  own : ∀ s key, ends key → text s key = s
  longer : ∀ s key, around key → s.length < (text s key).length
  other : ∀ s key, ¬ends key → ¬around key → text s key = ['n', 'u', 'l', 'l']

variable {ends around : String → Prop} {text : List Char → String → List Char}

/-- The parts of the template after the replacements for a key. -/
noncomputable def split (ends : String → Prop) (parts : List (List Char)) (key : String) :
    List (List Char) :=
  open Classical in
  if ends key then parts.flatMap (Needle.pieces (placeholder key))
  else parts.map (replace (placeholder key) ['n', 'u', 'l', 'l'])

theorem length_split (ends : String → Prop) (parts : List (List Char)) (key : String) :
    parts.length ≤ (split ends parts key).length := by
  unfold split
  split_ifs
  · induction parts with
    | nil => exact Nat.zero_le _
    | cons part parts ih =>
        have hpos := length_pos_iff.mpr (Needle.pieces_ne_nil (placeholder key) part)
        rw [flatMap_cons, length_append, length_cons]
        omega
  · rw [length_map]

theorem length_foldl_split (ends : String → Prop) (parts : List (List Char)) (keys : List String) :
    parts.length ≤ (keys.foldl (split ends) parts).length := by
  induction keys generalizing parts with
  | nil => exact le_rfl
  | cons key keys ih => exact (length_split ends parts key).trans (ih _)

/-- One key: what was put in before stays, where it has no placeholder of the key. -/
theorem replace_split (h : Attack ends around text) {key : String} (hkey : ¬around key) {n : ℕ}
    (hlength : (placeholder key).length ≤ n) {middle : List Char}
    (hmiddle : ¬placeholder key <:+: middle) (parts : List (List Char)) :
    replace (placeholder key) (text (block n middle) key)
        (intercalate (block n middle) parts) =
      intercalate (block n middle) (split ends parts key) := by
  rw [replace_blocks hlength, replace_of_not_infix hmiddle]
  unfold split
  split_ifs with hends
  · rw [h.own _ key hends]
    exact intercalate_flatMap (Needle.pieces_ne_nil _) parts
  · rw [h.other _ key hends hkey]

theorem replaceAll_split (h : Attack ends around text) {keys : List String} {n : ℕ}
    {middle : List Char} (hkeys : ∀ key ∈ keys, ¬around key ∧ (placeholder key).length ≤ n ∧
      ¬placeholder key <:+: middle) (parts : List (List Char)) :
    replaceAll (text (block n middle)) keys (intercalate (block n middle) parts) =
      intercalate (block n middle) (keys.foldl (split ends) parts) := by
  induction keys generalizing parts with
  | nil => rfl
  | cons key keys ih =>
      obtain ⟨⟨haround, hlength, hmiddle⟩, hkeys⟩ := forall_mem_cons.mp hkeys
      rw [replaceAll, foldl_cons, replace_split h haround hlength hmiddle]
      exact ih hkeys _

/-- The weight of a filled template, of which some slots have the string. -/
theorem exists_countP_fill (h : Attack ends around text)
    (hslots : ∀ key, Piece.slot key ∈ pieces → ¬around key) :
    ∃ k, ∀ q : Char → Bool, ∃ rest, ∀ s,
      (fill (text s) pieces).countP q = rest + k * s.countP q := by
  induction pieces with
  | nil => exact ⟨0, fun q => ⟨0, fun s => by simp [fill]⟩⟩
  | cons piece pieces ih =>
      obtain ⟨k, hk⟩ := ih fun key hkey => hslots key (.tail _ hkey)
      have hcons : ∀ q s, (fill (text s) (piece :: pieces)).countP q =
          (piece.fill (text s)).countP q + (fill (text s) pieces).countP q := by
        intro q s
        rw [fill, flatMap_cons, countP_append]
        rfl
      cases piece with
      | char c =>
          refine ⟨k, fun q => ?_⟩
          obtain ⟨rest, hrest⟩ := hk q
          refine ⟨[c].countP q + rest, fun s => ?_⟩
          rw [hcons, hrest, Nat.add_assoc]
          rfl
      | slot key =>
          by_cases hends : ends key
          · refine ⟨k + 1, fun q => ?_⟩
            obtain ⟨rest, hrest⟩ := hk q
            refine ⟨rest, fun s => ?_⟩
            rw [hcons, hrest, Piece.fill, h.own s key hends]
            ring
          · refine ⟨k, fun q => ?_⟩
            obtain ⟨rest, hrest⟩ := hk q
            refine ⟨['n', 'u', 'l', 'l'].countP q + rest, fun s => ?_⟩
            rw [hcons, hrest, Piece.fill, h.other s key hends (hslots key (.head _))]
            ring

theorem two_le_length_pieces {key : String} (h : placeholder key <:+: template) :
    2 ≤ (Needle.pieces (placeholder key) template).length := by
  obtain ⟨p, hp⟩ := Option.ne_none_iff_exists'.mp fun hnone => position_eq_none_iff.mp hnone h
  have hpos := length_pos_iff.mpr (Needle.pieces_ne_nil (placeholder key)
    (template.drop (p + (placeholder key).length)))
  rw [pieces_of_position (placeholder_ne_nil key) hp, length_cons]
  omega

theorem replace_self (key : String) (text : List Char) :
    replace (placeholder key) text (placeholder key) = text := by
  have h := replace_append_self (placeholder_ne_nil key) text []
  rwa [append_nil, replace_nil, append_nil] at h

/-- Equal sums with so many strings of growing length have as many strings. -/
theorem eq_of_growing {total total' j k N : ℕ}
    (h : ∀ n, N ≤ n → total + j * (2 * n) = total' + k * (2 * n)) : j = k ∧ total = total' := by
  have hfirst := h N le_rfl
  have hnext := h (N + 1) (Nat.le_succ N)
  have hj : j * (2 * (N + 1)) = j * (2 * N) + 2 * j := by ring
  have hk : k * (2 * (N + 1)) = k * (2 * N) + 2 * k := by ring
  have hjk : j = k := by omega
  subst hjk
  exact ⟨rfl, by omega⟩

theorem not_infix_nil (key : String) : ¬placeholder key <:+: [] := fun h =>
  placeholder_ne_nil key (infix_nil.mp h)

theorem count_block (n : ℕ) (middle : List Char) :
    (block n middle).countP (· == '<') = middle.countP (· == '<') := by
  simp [block, countP_append, countP_replicate]

section

variable {a b : String} {others : List String} {N : ℕ}

section

variable (h : Attack ends around text) (ha : ends a) (hwithin : placeholder a <:+: template)
  (hlength : ∀ key ∈ others ++ [b], (placeholder key).length ≤ N)
  (hothers : ∀ key ∈ others, ¬around key ∧ ¬placeholder key <:+: placeholder b)
  (hfill : ∀ s, replaceAll (text s) (a :: (others ++ [b])) template = fill (text s) pieces)

include h ha hwithin hlength hothers hfill

/-- What the replacements of a key and of the others leave for the last one, whose placeholder is
in the string: two strings or more, around that of the first. -/
theorem exists_parts :
    ∃ parts : List (List Char), 2 ≤ parts.length ∧ ∀ n, N ≤ n → ∀ middle,
      (∀ key ∈ others, ¬placeholder key <:+: middle) →
        fill (text (block n middle)) pieces = replace (placeholder b) (text (block n middle) b)
          (intercalate (block n middle) parts) := by
  refine ⟨others.foldl (split ends) (Needle.pieces (placeholder a) template),
    (two_le_length_pieces hwithin).trans (length_foldl_split ends _ others),
    fun n hn middle hmiddle => ?_⟩
  have hrun := replaceAll_split h (fun key hkey => ⟨(hothers key hkey).1,
    (hlength key (mem_append_left _ hkey)).trans hn, hmiddle key hkey⟩)
    (Needle.pieces (placeholder a) template)
  rw [← hfill, replaceAll, foldl_cons, foldl_append, h.own _ a ha]
  exact congrArg (replace (placeholder b) (text (block n middle) b)) hrun

/-- A key of the same path is searched for in the string. -/
theorem not_fill_of_ends (hslots : ∀ key, Piece.slot key ∈ pieces → ¬around key) (hb : ends b)
    (hbAround : ¬around b) : False := by
  obtain ⟨k, hk⟩ := exists_countP_fill h hslots
  obtain ⟨rest, hrest⟩ := hk fun _ => true
  simp only [countP_true] at hrest
  have hN := hlength b (by simp)
  obtain ⟨parts, htwo, hrun⟩ := exists_parts h ha hwithin hlength hothers hfill
  have hne : parts ≠ [] := ne_nil_of_length_pos (by omega)
  have hne' : split ends parts b ≠ [] :=
    ne_nil_of_length_pos (by have hle := length_split ends parts b; omega)
  -- without a placeholder in the string there are as many strings as slots
  obtain ⟨hslotCount, hsum⟩ : (split ends parts b).length - 1 = k ∧
      ((split ends parts b).map length).sum = rest := by
    refine eq_of_growing (N := N) fun n hn => ?_
    have heq := hrun n hn [] fun key _ => not_infix_nil key
    rw [replace_split h hbAround (hN.trans hn) (not_infix_nil b)] at heq
    have hsize := congrArg length heq
    rw [hrest, length_intercalate _ hne', length_block, length_nil, Nat.add_zero] at hsize
    exact hsize.symm
  -- with it each string of the first key grows
  have heq := hrun N le_rfl (placeholder b) fun key hkey => (hothers key hkey).2
  rw [replace_blocks hN, replace_self, h.own _ b hb] at heq
  have hparts : intercalate (block N (placeholder b))
      (parts.map (replace (placeholder b) (block N (placeholder b)))) =
        intercalate (block N (placeholder b)) (split ends parts b) := by
    unfold split
    rw [if_pos hb]
    exact intercalate_flatMap (Needle.pieces_ne_nil _) parts
  have hsize := congrArg length heq
  have hsize' := congrArg length hparts
  have hmap : parts.map (replace (placeholder b) (block N (placeholder b))) ≠ [] := by
    simpa using hne
  rw [hrest, length_intercalate _ hmap, length_block N (block N (placeholder b)),
    length_map] at hsize
  rw [length_intercalate _ hmap, length_intercalate _ hne', hslotCount, hsum,
    length_map] at hsize'
  have hgrow : (parts.length - 1) * (2 * N + (block N (placeholder b)).length) =
      (parts.length - 1) * (2 * N) + (parts.length - 1) * (block N (placeholder b)).length := by
    ring
  have hpos : 0 < (parts.length - 1) * (2 * N) := by
    have hplaceholder := length_pos_iff.mpr (placeholder_ne_nil b)
    exact Nat.mul_pos (by omega) (by omega)
  omega

/-- A key of another path is searched for in the string. -/
theorem not_fill_of_other (hslots : ∀ key, Piece.slot key ∈ pieces → ¬around key) (hb : ¬ends b)
    (hbAround : ¬around b) : False := by
  obtain ⟨k, hk⟩ := exists_countP_fill h hslots
  obtain ⟨rest, hrest⟩ := hk fun _ => true
  obtain ⟨opened, hopened⟩ := hk (· == '<')
  simp only [countP_true] at hrest
  have hN := hlength b (by simp)
  obtain ⟨parts, htwo, hrun⟩ := exists_parts h ha hwithin hlength hothers hfill
  have hmap : parts.map (replace (placeholder b) ['n', 'u', 'l', 'l']) ≠ [] := by
    simpa using ne_nil_of_length_pos (show 0 < parts.length by omega)
  have hplain : ∀ n, N ≤ n → fill (text (block n [])) pieces = intercalate (block n [])
      (parts.map (replace (placeholder b) ['n', 'u', 'l', 'l'])) := by
    intro n hn
    rw [hrun n hn [] fun key _ => not_infix_nil key, replace_blocks (hN.trans hn), replace_nil,
      h.other _ b hb hbAround]
  -- without a placeholder in the string there are as many strings as slots, and as many opened
  -- placeholders besides
  obtain ⟨hslotCount, -⟩ :
      (parts.map (replace (placeholder b) ['n', 'u', 'l', 'l'])).length - 1 = k ∧
      ((parts.map (replace (placeholder b) ['n', 'u', 'l', 'l'])).map length).sum = rest := by
    refine eq_of_growing (N := N) fun n hn => ?_
    have hsize := congrArg length (hplain n hn)
    rw [hrest, length_intercalate _ hmap, length_block, length_nil, Nat.add_zero] at hsize
    exact hsize.symm
  have hcount := congrArg (countP (· == '<')) (hplain N le_rfl)
  rw [hopened, countP_intercalate _ _ hmap, count_block, countP_nil, Nat.mul_zero,
    Nat.mul_zero] at hcount
  -- with it the placeholders are gone from the strings
  have hcount' := congrArg (countP (· == '<'))
    (hrun N le_rfl (placeholder b) fun key hkey => (hothers key hkey).2)
  rw [replace_blocks hN, replace_self, h.other _ b hb hbAround, hopened,
    countP_intercalate _ _ hmap, count_block, count_block] at hcount'
  have hnone : ['n', 'u', 'l', 'l'].countP (· == '<') = 0 := by decide
  have hsome : 0 < (placeholder b).countP (· == '<') :=
    countP_pos_iff.mpr ⟨'<', mem_cons_self, rfl⟩
  rw [hnone, Nat.mul_zero] at hcount'
  rw [length_map] at hslotCount
  have hpos : 0 < k * (placeholder b).countP (· == '<') := Nat.mul_pos (by omega) hsome
  omega

end

/-- A key with a part of the path is searched for in the string, which its text is longer
than. -/
theorem not_fill_of_around (h : Attack ends around text) (ha : ends a)
    (hwithin : placeholder a <:+: template) (hb : around b)
    (habsent : ¬placeholder b <:+: template) (hlength : (placeholder b).length ≤ N)
    (hothers : ∀ key ∈ others, ¬placeholder key <:+: template)
    (hfill : ∀ s, replaceAll (text s) (others ++ [a, b]) template =
      replaceAll (text s) (b :: (others ++ [a])) template) : False := by
  have heq := hfill (block N (placeholder b))
  have hfirst : ∀ rest, replaceAll (text (block N (placeholder b))) (others ++ rest) template =
      replaceAll (text (block N (placeholder b))) rest template := by
    intro rest
    rw [replaceAll, foldl_append]
    exact congrArg (replaceAll _ rest) (replaceAll_of_not_isInfix _ hothers)
  have hskip : replaceAll (text (block N (placeholder b))) (b :: (others ++ [a])) template =
      replaceAll (text (block N (placeholder b))) (others ++ [a]) template := by
    rw [replaceAll, foldl_cons, replace_of_not_infix habsent]
    rfl
  rw [hskip, hfirst, hfirst] at heq
  simp only [replaceAll, foldl_cons, foldl_nil] at heq
  rw [h.own _ a ha] at heq
  change replace (placeholder b) _ (intercalate (block N (placeholder b))
    (Needle.pieces (placeholder a) template)) = intercalate (block N (placeholder b))
      (Needle.pieces (placeholder a) template) at heq
  have hkeep : (Needle.pieces (placeholder a) template).map (replace (placeholder b)
      (text (block N (placeholder b)) b)) = Needle.pieces (placeholder a) template := by
    refine (map_congr_left fun part hpart => ?_).trans (map_id _)
    exact replace_of_not_infix (fun hpartInfix => habsent (hpartInfix.trans
      (infix_of_mem_pieces (placeholder_ne_nil a) hpart))) _
  rw [replace_blocks hlength, replace_self, hkeep] at heq
  have hsize := congrArg length heq
  have hne := Needle.pieces_ne_nil (placeholder a) template
  have htwo := two_le_length_pieces hwithin
  have hlonger := h.longer (block N (placeholder b)) b hb
  rw [length_intercalate _ hne, length_intercalate _ hne, length_block, length_block] at hsize
  rw [length_block] at hlonger
  have hmul := Nat.eq_of_mul_eq_mul_left (by omega) (Nat.add_left_cancel hsize)
  omega

end

theorem replaceAll_append (text : String → List Char) (keys keys' : List String)
    (template : List Char) :
    replaceAll text (keys ++ keys') template =
      replaceAll text keys' (replaceAll text keys template) :=
  foldl_append

/-- With an attack the result depends on the order of the keys or on the string. -/
theorem not_fill_of_attack (h : Attack ends around text) (hnodup : keys.Nodup)
    (hcut : Cut keys template pieces) {a b : String} (hakeys : a ∈ keys) (ha : ends a)
    (hwithin : placeholder a <:+: template) (hbkeys : b ∈ keys) (hab : b ≠ a)
    (habsent : ∀ key ∈ keys, around key → ¬placeholder key <:+: template)
    (hfill : ∀ s (order : List String), order.Perm keys →
      replaceAll (text s) order template = fill (text s) pieces) : False := by
  classical
  have hslots : ∀ key, Piece.slot key ∈ pieces → ¬around key := fun key hslot haround =>
    habsent key (hcut.infix_of_slot hslot).1 haround (hcut.infix_of_slot hslot).2
  obtain ⟨N, hN⟩ : ∃ N, ∀ key ∈ keys, (placeholder key).length ≤ N :=
    ⟨(keys.map fun key => (placeholder key).length).sum, fun key hkey =>
      single_le_sum (by simp) _ (mem_map_of_mem hkey)⟩
  by_cases hothers : ∃ key ∈ keys, key ≠ a ∧ ¬around key
  · -- the shortest of them has no placeholder of the others
    obtain ⟨first, hfirst⟩ := hothers
    obtain ⟨b, ⟨hbkeys, hab, hbAround⟩, hmin⟩ := (InvImage.wf (fun key => (placeholder key).length)
      wellFounded_lt).has_min {key | key ∈ keys ∧ key ≠ a ∧ ¬around key} ⟨first, hfirst⟩
    have hperm : (keys.filter (fun key => around key) ++ a ::
        (keys.filter (fun key => ¬around key ∧ key ≠ a ∧ key ≠ b) ++ [b])).Perm keys := by
      refine (perm_ext_iff_of_nodup ?_ hnodup).mpr fun key => ?_
      · simp only [nodup_append, nodup_cons, mem_append, mem_filter,
          mem_cons, hnodup.filter]
        grind
      · simp only [mem_append, mem_filter, mem_cons]
        grind
    have hlast : ∀ s, replaceAll (text s)
        (a :: (keys.filter (fun key => ¬around key ∧ key ≠ a ∧ key ≠ b) ++ [b])) template =
          fill (text s) pieces := by
      intro s
      have hskip : replaceAll (text s) (keys.filter (fun key => around key)) template = template :=
        replaceAll_of_not_isInfix _ fun key hkey => habsent key (mem_filter.mp hkey).1
          (of_decide_eq_true (mem_filter.mp hkey).2)
      rw [← hfill s _ hperm, replaceAll_append, hskip]
    have hlength : ∀ key ∈ keys.filter (fun key => ¬around key ∧ key ≠ a ∧ key ≠ b) ++ [b],
        (placeholder key).length ≤ N := by
      intro key hkey
      rcases mem_append.mp hkey with hkey | hkey
      · exact hN key (mem_filter.mp hkey).1
      · exact hN key (mem_singleton.mp hkey ▸ hbkeys)
    have hinside : ∀ key ∈ keys.filter (fun key => ¬around key ∧ key ≠ a ∧ key ≠ b),
        ¬around key ∧ ¬placeholder key <:+: placeholder b := by
      intro key hkey
      obtain ⟨hkeys, hcond⟩ := mem_filter.mp hkey
      obtain ⟨haround, hka, hkb⟩ := of_decide_eq_true hcond
      refine ⟨haround, fun hinside => hkb ?_⟩
      have hle := Nat.le_of_not_lt (hmin key ⟨hkeys, hka, haround⟩)
      exact placeholder_inj (hinside.eq_of_length_le hle)
    by_cases hends : ends b
    · exact not_fill_of_ends h ha hwithin hlength hinside hlast hslots hends hbAround
    · exact not_fill_of_other h ha hwithin hlength hinside hlast hslots hends hbAround
  · have hbAround : around b := by
      by_contra hnot
      exact hothers ⟨b, hbkeys, hab, hnot⟩
    have hperm : (b :: (keys.filter (fun key => key ≠ a ∧ key ≠ b) ++ [a])).Perm keys := by
      refine (perm_ext_iff_of_nodup ?_ hnodup).mpr fun key => ?_
      · simp only [nodup_append, nodup_cons, mem_append, mem_filter,
          mem_cons, hnodup.filter]
        grind
      · simp only [mem_append, mem_filter, mem_cons]
        grind
    have hperm' : (keys.filter (fun key => key ≠ a ∧ key ≠ b) ++ [a, b]).Perm keys := by
      refine List.Perm.trans ?_ hperm
      rw [append_cons]
      exact perm_append_singleton b _
    refine not_fill_of_around h ha hwithin hbAround (habsent b hbkeys hbAround) (hN b hbkeys)
      (fun key hkey => ?_) fun s => (hfill s _ hperm').trans (hfill s _ hperm).symm
    obtain ⟨hkeys, hcond⟩ := mem_filter.mp hkey
    obtain ⟨hka, -⟩ := of_decide_eq_true hcond
    refine habsent key hkeys ?_
    by_contra hnot
    exact hothers ⟨key, hkeys, hka, hnot⟩

/-! ## Events -/

def segments (path : String) : List String :=
  if (stripRoot path).isEmpty then [] else (stripRoot path).splitOn "."

theorem applyJsonPath_eq (value : Value) (path : String) :
    applyJsonPath value path = (navigatePath value (segments path)).getD .null := by
  unfold applyJsonPath segments
  split_ifs with hempty
  · simp [hempty, navigatePath]
  · simp [hempty]

/-- An event with a value at the end of a path. -/
def nest : List String → Value → Value
  | [], value => value
  | key :: path, value => .object [(key, nest path value)]

theorem nest_distinct (path : List String) (s : String) : (nest path (.string s)).Distinct := by
  induction path with
  | nil => exact .string s
  | cons key path ih =>
      refine .object (nodup_singleton key) fun field hfield => ?_
      rwa [mem_singleton.mp hfield]

theorem get_object_self (key : String) (value : Value) :
    (Value.object [(key, value)]).get key = some value := lookup_cons_self

theorem navigate_nest (path rest : List String) (value : Value) :
    navigatePath (nest (path ++ rest) value) path = some (nest rest value) := by
  induction path with
  | nil => rfl
  | cons key path ih =>
      rw [cons_append, nest, navigatePath, get_object_self]
      exact ih

theorem navigate_nest_of_not {path other : List String} (s : String) (h : ¬other <+: path) :
    navigatePath (nest path (.string s)) other = none := by
  induction other generalizing path with
  | nil => exact absurd nil_prefix h
  | cons key other ih =>
      cases path with
      | nil => rfl
      | cons key' path =>
          rw [nest, navigatePath]
          by_cases hkey : key = key'
          · subst hkey
            rw [get_object_self]
            exact ih fun hstart => h ((prefix_cons_inj key).mpr hstart)
          · have hnone : (Value.object [(key', nest path (.string s))]).get key = none := by
              rw [Value.get, lookup_cons, beq_false_of_ne hkey]
              rfl
            rw [hnone]
            rfl

variable {Net : Type} {p : Provider Net} {transformer : InputTransformer}

theorem length_le_nest (hprint : ∀ key value,
      (p.valueStr value).toList.length < (p.print (.object [(key, value)])).toList.length)
    (path : List String) (s : String) :
    s.toList.length ≤ (p.valueStr (nest path (.string s))).toList.length := by
  induction path with
  | nil => exact le_rfl
  | cons key path ih => exact ih.trans (hprint key _).le

/-- A string at the end of a path is an attack. -/
theorem attack_of_path (hnull : p.print .null = "null") (hprint : ∀ key value,
      (p.valueStr value).toList.length < (p.print (.object [(key, value)])).toList.length)
    (pathOf : String → String) (path : List String) :
    Attack (fun key => segments (pathOf key) = path)
      (fun key => segments (pathOf key) <+: path ∧ segments (pathOf key) ≠ path)
      (fun s key => (p.valueStr
        (applyJsonPath (nest path (.string (String.ofList s))) (pathOf key))).toList) where
  own := by
    intro s key hends
    have hfound := navigate_nest path [] (.string (String.ofList s))
    rw [append_nil] at hfound
    simp only [applyJsonPath_eq, hends]
    rw [hfound]
    exact String.toList_ofList
  longer := by
    rintro s key ⟨⟨rest, hrest⟩, hne⟩
    have hfound := navigate_nest (segments (pathOf key)) rest (.string (String.ofList s))
    rw [hrest] at hfound
    simp only [applyJsonPath_eq]
    rw [hfound]
    cases rest with
    | nil => exact absurd (by rw [← hrest, append_nil]) hne
    | cons segment rest =>
        have hle := length_le_nest hprint rest (String.ofList s)
        rw [String.toList_ofList] at hle
        exact hle.trans_lt (hprint segment _)
  other := by
    intro s key hends haround
    have hnone := navigate_nest_of_not (String.ofList s)
      fun hstart => haround ⟨hstart, hends⟩
    simp only [applyJsonPath_eq]
    rw [hnone]
    change (p.print .null).toList = _
    rw [hnull]
    rfl

theorem lookup_of_nodup {entries : List (String × String)} (h : (entries.map Prod.fst).Nodup)
    {entry : String × String} (hentry : entry ∈ entries) :
    entries.lookup entry.1 = some entry.2 := by
  induction entries with
  | nil => cases hentry
  | cons first entries ih =>
      obtain ⟨hnot, hnodup⟩ := nodup_cons.mp h
      rcases mem_cons.mp hentry with rfl | hentry
      · exact lookup_cons_self
      · have hne : entry.1 ≠ first.1 := fun heq => hnot (heq ▸ mem_map_of_mem hentry)
        rw [lookup_cons, beq_false_of_ne hne]
        exact ih hnodup hentry

/-- The body is the template after the replacements. -/
theorem toList_applyInputTransform (hkeys : (transformer.inputPathsMap.map Prod.fst).Nodup)
    (target : Target) (event : Value) {entries : List (String × String)}
    (h : ∀ entry ∈ entries, entry ∈ transformer.inputPathsMap) :
    (p.applyInputTransform (transformed target transformer entries) event).toList =
      replaceAll (textOf p transformer event) (entries.map Prod.fst)
        transformer.inputTemplate.toList := by
  change (entries.foldl (fun result entry => result.replace ("<" ++ entry.1 ++ ">")
    (p.valueStr (applyJsonPath event entry.2))) transformer.inputTemplate).toList = _
  generalize transformer.inputTemplate = template
  induction entries generalizing template with
  | nil => rfl
  | cons entry entries ih =>
      obtain ⟨hentry, hentries⟩ := forall_mem_cons.mp h
      have hspelled : ("<" ++ entry.1 ++ ">").toList = placeholder entry.1 := by
        simp [placeholder]
      have hne : "<" ++ entry.1 ++ ">" ≠ "" := fun heq => by
        rw [heq] at hspelled
        exact placeholder_ne_nil entry.1 hspelled.symm
      have htext : textOf p transformer event entry.1 =
          (p.valueStr (applyJsonPath event entry.2)).toList := by
        rw [textOf, lookup_of_nodup hkeys hentry]
        rfl
      rw [foldl_cons, ih hentries, toList_replace hne, hspelled, ← htext]
      rfl

/-! ## Where the substitution is simultaneous -/

theorem simultaneous_of_absent (hkeys : (transformer.inputPathsMap.map Prod.fst).Nodup)
    (h : ∀ key ∈ transformer.inputPathsMap.map Prod.fst,
      ¬placeholder key <:+: transformer.inputTemplate.toList) : Simultaneous p transformer := by
  refine ⟨_, cut_of_not_infix h, fun target event entries hperm => ?_⟩
  rw [toList_applyInputTransform hkeys target event.value fun entry => hperm.mem_iff.mp,
    fill_chars, replaceAll_of_not_isInfix]
  exact fun key hkey => h key ((hperm.map Prod.fst).mem_iff.mp hkey)

theorem simultaneous_of_one (hkeys : (transformer.inputPathsMap.map Prod.fst).Nodup)
    {entry : String × String} (h : transformer.inputPathsMap = [entry]) :
    Simultaneous p transformer := by
  obtain ⟨pieces, hcut, hfill⟩ := exists_cut entry.1 transformer.inputTemplate.toList
  refine ⟨pieces, by rwa [h], fun target event entries hperm => ?_⟩
  rw [toList_applyInputTransform hkeys target event.value fun entry => hperm.mem_iff.mp, ← hfill]
  rw [h] at hperm
  rw [perm_singleton.mp hperm]
  rfl

/-- Two keys and a placeholder: a string at a path of the event is searched for another
placeholder. -/
theorem not_simultaneous (hkeys : (transformer.inputPathsMap.map Prod.fst).Nodup)
    (hnull : p.print .null = "null") (hprint : ∀ key value,
      (p.valueStr value).toList.length < (p.print (.object [(key, value)])).toList.length)
    (htwo : 2 ≤ transformer.inputPathsMap.length) {key : String}
    (hkey : key ∈ transformer.inputPathsMap.map Prod.fst)
    (hoccurs : placeholder key <:+: transformer.inputTemplate.toList) :
    ¬Simultaneous p transformer := by
  rintro ⟨pieces, hcut, hall⟩
  let pathOf : String → String := fun key => (transformer.inputPathsMap.lookup key).getD ""
  -- of the keys whose placeholders are in the template, one with the shortest path
  obtain ⟨a, ⟨hakeys, hainfix⟩, hmin⟩ := (InvImage.wf (fun key => (segments (pathOf key)).length)
    wellFounded_lt).has_min {key | key ∈ transformer.inputPathsMap.map Prod.fst ∧
      placeholder key <:+: transformer.inputTemplate.toList} ⟨key, hkey, hoccurs⟩
  obtain ⟨b, hbkeys, hab⟩ : ∃ b ∈ transformer.inputPathsMap.map Prod.fst, b ≠ a := by
    by_contra hnone
    push Not at hnone
    have hsub : (transformer.inputPathsMap.map Prod.fst).length ≤ [a].length :=
      (subperm_of_subset hkeys fun other hother =>
        mem_singleton.mpr (hnone other hother)).length_le
    rw [length_map, length_singleton] at hsub
    omega
  have hattack := attack_of_path hnull hprint pathOf (segments (pathOf a))
  refine not_fill_of_attack hattack hkeys hcut hakeys rfl hainfix hbkeys hab
    (fun other hother haround hwithin => ?_) fun s order horder => ?_
  · obtain ⟨⟨rest, hrest⟩, hne⟩ := haround
    refine hmin other ⟨hother, hwithin⟩ ?_
    have hlength := congrArg length hrest
    rw [length_append] at hlength
    have hpos : rest ≠ [] := fun hnil => hne (by rw [← hrest, hnil, append_nil])
    have hrestPos := length_pos_iff.mpr hpos
    change (segments (pathOf other)).length < (segments (pathOf a)).length
    omega
  · -- the entries in the order of the keys
    have hentries : ((order.map fun key => (key, pathOf key))).Perm transformer.inputPathsMap := by
      have hmap : (transformer.inputPathsMap.map Prod.fst).map (fun key => (key, pathOf key)) =
          transformer.inputPathsMap := by
        rw [map_map]
        refine (map_congr_left fun entry hentry => ?_).trans (map_id _)
        change (entry.1, (transformer.inputPathsMap.lookup entry.1).getD "") = entry
        rw [lookup_of_nodup hkeys hentry]
        rfl
      have hperm := horder.map fun key => (key, pathOf key)
      rwa [hmap] at hperm
    have hbody := hall ⟨"", "", none, none, none, []⟩
      ⟨nest (segments (pathOf a)) (.string (String.ofList s)), nest_distinct _ _⟩ _ hentries
    rw [toList_applyInputTransform hkeys _ _ fun entry => hentries.mem_iff.mp,
      map_map] at hbody
    have horder' : order.map (Prod.fst ∘ fun key => (key, pathOf key)) = order := map_id _
    rw [horder'] at hbody
    exact hbody

/-- Exactly where there is one key at most, or no placeholder in the template, the body is a
simultaneous substitution for all events and all orders of the keys. -/
theorem simultaneous_iff (p : Provider Net) (transformer : InputTransformer)
    (hkeys : (transformer.inputPathsMap.map Prod.fst).Nodup)
    (hnull : p.print .null = "null") (hprint : ∀ key value,
      (p.valueStr value).toList.length < (p.print (.object [(key, value)])).toList.length) :
    Simultaneous p transformer ↔ transformer.inputPathsMap.length ≤ 1 ∨
      ∀ key ∈ transformer.inputPathsMap.map Prod.fst,
        ¬placeholder key <:+: transformer.inputTemplate.toList := by
  constructor
  · intro h
    by_contra hnot
    push Not at hnot
    obtain ⟨htwo, key, hkey, hoccurs⟩ := hnot
    exact not_simultaneous hkeys hnull hprint htwo hkey hoccurs h
  · rintro (hone | habsent)
    · rcases Nat.le_one_iff_eq_zero_or_eq_one.mp hone with hnone | hone
      · refine simultaneous_of_absent hkeys fun key hkey => ?_
        rw [eq_nil_of_length_eq_zero hnone] at hkey
        cases hkey
      · obtain ⟨entry, hentry⟩ := length_eq_one_iff.mp hone
        exact simultaneous_of_one hkeys hentry
    · exact simultaneous_of_absent hkeys habsent

/-! ## A placeholder in an event -/

/-- A character in a string of JSON. -/
def escape (c : Char) : List Char :=
  if c = '"' ∨ c = '\\' then ['\\', c]
  else if c = '\n' then ['\\', 'n']
  else if c.toNat < 32 then
    ['\\', 'u', '0', '0', Nat.digitChar (c.toNat / 16), Nat.digitChar (c.toNat % 16)]
  else [c]

def quoted (s : String) : String := "\"" ++ String.ofList (s.toList.flatMap escape) ++ "\""

mutual

/-- The compact text of a value. -/
def plainPrint : Value → String
  | .null => "null"
  | .bool b => if b then "true" else "false"
  | .number (.posInt n) => toString n
  | .number (.negInt n) => toString n
  | .number (.float f) => toString f.value
  | .string s => quoted s
  | .array values => "[" ++ plainItems values ++ "]"
  | .object fields => String.singleton '\x7b' ++ plainFields fields ++ String.singleton '\x7d'

def plainItems : List Value → String
  | [] => ""
  | [value] => plainPrint value
  | value :: values => plainPrint value ++ "," ++ plainItems values

def plainFields : List (String × Value) → String
  | [] => ""
  | [(key, value)] => quoted key ++ ":" ++ plainPrint value
  | (key, value) :: fields => quoted key ++ ":" ++ plainPrint value ++ "," ++ plainFields fields

end

def printingProvider : Provider Unit where
  parseNet := fun _ => .error "invalid IP address syntax"
  contains := fun _ _ => false
  toLowercase := String.toLower
  config := ⟨"us-east-1", "000000000000"⟩
  fromStr := fun _ => .error "expected value at line 1 column 1"
  print := plainPrint
  validate := fun _ => none

theorem length_le_flatMap_escape (chars : List Char) :
    chars.length ≤ (chars.flatMap escape).length := by
  induction chars with
  | nil => exact le_rfl
  | cons c chars ih =>
      have hpos : 1 ≤ (escape c).length := by
        unfold escape
        split_ifs <;> simp
      rw [flatMap_cons, length_append, length_cons]
      omega

theorem plainPrint_longer (key : String) (value : Value) :
    (printingProvider.valueStr value).toList.length <
      (printingProvider.print (.object [(key, value)])).toList.length := by
  have hle : (printingProvider.valueStr value).toList.length ≤
      (plainPrint value).toList.length := by
    cases value with
    | string s =>
        simp only [plainPrint, quoted, String.toList_append, String.toList_ofList,
          length_append]
        exact (length_le_flatMap_escape _).trans
          ((Nat.le_add_left _ _).trans (Nat.le_add_right _ _))
    | _ => exact le_rfl
  refine hle.trans_lt ?_
  change _ < (plainPrint (.object [(key, value)])).toList.length
  simp only [plainPrint, plainFields, quoted, String.toList_append, length_append]
  simp
  omega

/-- The text of one member of the detail, and another key. -/
def twoPlaceholders : InputTransformer :=
  ⟨[("a", "$.detail.a"), ("b", "$.detail.b")], "<a>"⟩

/-- An envelope whose detail has a member with the text of a placeholder. -/
def openEvent : Json :=
  ⟨.object [("account", .string "000000000000"),
      ("detail", .object [("a", .string "<b>"), ("b", .string "c")]),
      ("detail-type", .string "Open"),
      ("event-bus-name", .string "arn:aws:events:us-east-1:000000000000:event-bus/default"),
      ("id", .string "1"), ("region", .string "us-east-1"), ("resources", .array []),
      ("source", .string "my.app"), ("time", .string "2026-01-01T00:00:00+00:00"),
      ("version", .string "0")],
    .object (by decide) (by
      simp only [forall_mem_cons, Value.Distinct.string, true_and, not_mem_nil,
        IsEmpty.forall_iff, implies_true, and_true]
      exact ⟨.object (by decide) (by simp [Value.Distinct.string]), .array nofun⟩)⟩

theorem splitOn_detail : "detail.a".splitOn "." = ["detail", "a"] ∧
    "detail.b".splitOn "." = ["detail", "b"] := by
  constructor <;>
  · rw [String.splitOn, if_neg (by decide)]
    iterate 6 rw [String.splitOnAux, if_neg (by decide +kernel), if_neg (by decide +kernel)]
    rw [String.splitOnAux, if_neg (by decide +kernel), if_pos (by decide +kernel)]
    dsimp only
    rw [if_pos (by decide +kernel), String.splitOnAux, if_neg (by decide +kernel),
      if_neg (by decide +kernel), String.splitOnAux, if_pos (by decide +kernel)]
    decide +kernel

theorem textOf_openEvent :
    textOf printingProvider twoPlaceholders openEvent.value "a" = "<b>".toList ∧
      textOf printingProvider twoPlaceholders openEvent.value "b" = ['c'] := by
  have ha : segments "$.detail.a" = ["detail", "a"] := splitOn_detail.1
  have hb : segments "$.detail.b" = ["detail", "b"] := splitOn_detail.2
  constructor
  · change (printingProvider.valueStr (applyJsonPath openEvent.value "$.detail.a")).toList = _
    rw [applyJsonPath_eq, ha]
    rfl
  · change (printingProvider.valueStr (applyJsonPath openEvent.value "$.detail.b")).toList = _
    rw [applyJsonPath_eq, hb]
    rfl

/-- One event and two orders of the keys: the body is the text of the one member or of the
other. -/
theorem body_depends_on_order (target : Target) :
    printingProvider.applyInputTransform (transformed target twoPlaceholders
      [("a", "$.detail.a"), ("b", "$.detail.b")]) openEvent.value = "c" ∧
    printingProvider.applyInputTransform (transformed target twoPlaceholders
      [("b", "$.detail.b"), ("a", "$.detail.a")]) openEvent.value = "<b>" := by
  have hkeys : (twoPlaceholders.inputPathsMap.map Prod.fst).Nodup := by decide
  obtain ⟨ha, hb⟩ := textOf_openEvent
  constructor
  · refine String.toList_inj.mp ?_
    rw [toList_applyInputTransform hkeys target _ (by decide)]
    simp only [replaceAll, map_cons, map_nil, foldl_cons, foldl_nil, ha, hb]
    decide
  · refine String.toList_inj.mp ?_
    rw [toList_applyInputTransform hkeys target _ (by decide)]
    simp only [replaceAll, map_cons, map_nil, foldl_cons, foldl_nil, ha, hb]
    decide

/-- No one text is the body for all orders of the keys. -/
theorem not_simultaneous_twoPlaceholders : ¬Simultaneous printingProvider twoPlaceholders := by
  rintro ⟨pieces, -, hall⟩
  let target : Target := ⟨"target", "", none, none, none, []⟩
  obtain ⟨hone, hother⟩ := body_depends_on_order target
  have hsame := (hall target openEvent _ (List.Perm.refl _)).trans
    (hall target openEvent [("b", "$.detail.b"), ("a", "$.detail.a")] (List.Perm.swap _ _ _)).symm
  rw [show twoPlaceholders.inputPathsMap =
    [("a", "$.detail.a"), ("b", "$.detail.b")] from rfl, hone,
    hother] at hsame
  exact absurd hsame (by decide)

/-- With one key the body is a simultaneous substitution. -/
theorem simultaneous_singleton :
    Simultaneous printingProvider ⟨[("a", "$.detail.a")], "<a>"⟩ :=
  (simultaneous_iff printingProvider ⟨[("a", "$.detail.a")], "<a>"⟩ (by decide) rfl
    plainPrint_longer).mpr (.inl le_rfl)

end Rustack.Events
