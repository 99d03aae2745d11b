import DefineBundle.Proofs.Bundle.FileOrder

/-!
# What a file of a bundle consists of

A file of a bundle has the path, the text and the kind of a module, and it holds all modules of its
path, in their order.
-/
namespace DefineBundle.Bundle

/-- A file that holds the modules of its path, and shows what one of them knows of it. -/
structure BundleFile.Gathers (us : List Member) (f : BundleFile) : Prop where
  members : f.members = us.filter (·.record.path = f.path)
  exists_member : ∃ u ∈ us, f.path = u.record.path ∧ f.source = u.record.source ∧
    f.isVirtual = u.record.isVirtual

/-- A module leaves the files of other paths alone, and joins its own or starts it. -/
theorem mem_addMember {m : Member} {fs : List BundleFile} {f : BundleFile}
    (hnodup : (fs.map BundleFile.path).Nodup) (h : f ∈ addMember m fs) :
    (f ∈ fs ∧ f.path ≠ m.record.path) ∨
      (∃ g ∈ fs, g.path = m.record.path ∧ f = { g with members := g.members ++ [m] }) ∨
      (m.record.path ∉ fs.map BundleFile.path ∧
        f = ⟨m.record.path, m.record.source, m.record.isVirtual, [m]⟩) := by
  induction fs with
  | nil => exact .inr (.inr ⟨by simp, List.mem_singleton.mp h⟩)
  | cons g fs ih =>
      obtain ⟨hg, hfs⟩ := List.nodup_cons.mp hnodup
      rw [addMember] at h
      split at h
      · rename_i hp
        rcases List.mem_cons.mp h with rfl | h
        · exact .inr (.inl ⟨g, List.mem_cons_self, hp, rfl⟩)
        · exact .inl ⟨List.mem_cons_of_mem _ h, fun he =>
            hg (List.mem_map.mpr ⟨f, h, he.trans hp.symm⟩)⟩
      · rename_i hp
        rcases List.mem_cons.mp h with rfl | h
        · exact .inl ⟨List.mem_cons_self, hp⟩
        · rcases ih hfs h with ⟨hf, hne⟩ | ⟨f', hf', hown, he⟩ | ⟨hno, he⟩
          · exact .inl ⟨List.mem_cons_of_mem _ hf, hne⟩
          · exact .inr (.inl ⟨f', List.mem_cons_of_mem _ hf', hown, he⟩)
          · exact .inr (.inr ⟨by simpa [Ne.symm hp] using hno, he⟩)

theorem nodup_map_path_files (us : List Member) : ((files us).map BundleFile.path).Nodup := by
  rw [map_path_files]
  exact nodup_eraseDups _

theorem gathers_of_mem_files {us : List Member} {f : BundleFile} (h : f ∈ files us) :
    f.Gathers us := by
  induction us using List.reverseRecOn generalizing f with
  | nil => cases h
  | append_singleton us m ih =>
      have hfiles : files (us ++ [m]) = addMember m (files us) := by
        simp [files, List.foldl_append]
      rw [hfiles] at h
      rcases mem_addMember (nodup_map_path_files us) h with
        ⟨hf, hne⟩ | ⟨g, hg, hown, rfl⟩ | ⟨hno, rfl⟩
      · obtain ⟨hmembers, u, hu, hfirst⟩ := ih hf
        exact ⟨by simpa [Ne.symm hne] using hmembers, u, List.mem_append_left _ hu, hfirst⟩
      · obtain ⟨hmembers, u, hu, hfirst⟩ := ih hg
        exact ⟨by simp [hmembers, hown], u, List.mem_append_left _ hu, hfirst⟩
      · refine ⟨?_, m, by simp, rfl, rfl, rfl⟩
        rw [map_path_files, List.mem_eraseDups] at hno
        have hnone : us.filter (·.record.path = m.record.path) = [] := by
          refine List.filter_eq_nil_iff.mpr fun u hu => ?_
          simpa using fun he => hno (List.mem_map.mpr ⟨u, hu, he⟩)
        simp [hnone]

theorem exists_record_of_mem_files {globals : Assoc String} {ms : List ModuleRecord}
    {f : BundleFile} (h : f ∈ files (members globals ms)) :
    ∃ m ∈ ms, f.path = m.path ∧ f.source = m.source ∧ f.isVirtual = m.isVirtual := by
  obtain ⟨u, hu, hfirst⟩ := (gathers_of_mem_files h).exists_member
  have hrecord := List.mem_map_of_mem (f := Member.record) hu
  rw [map_record_members] at hrecord
  exact ⟨u.record, hrecord, hfirst⟩

end DefineBundle.Bundle
