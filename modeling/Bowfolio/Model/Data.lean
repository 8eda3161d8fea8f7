import Bowfolio.View.Interests

/-!
# The bundled data

`Data.swift` loads the profiles and projects that are bundled with the application and
collects their interests once, into the global variable `interests`. Of the bundled
records only the interests are read, so their other fields are left open.
-/

namespace Bowfolio.Data

/-- The records of the two files in their order, of which only the interests matter. -/
structure Bundle where
  profile : Nat → Profile
  project : Nat → Project

/-- `profiles.json`. -/
def profileData (bundle : Bundle) : List Profile :=
  [{ bundle.profile 0 with interests := ["Software Engineering", "Climate Change"] },
    { bundle.profile 1 with interests := ["HPC", "Distributed Computing"] },
    { bundle.profile 2 with interests := ["Software Engineering", "Renewable Energy"] },
    { bundle.profile 3 with interests := ["AI", "Distributed Computing"] },
    { bundle.profile 4 with interests := ["Visualization"] },
    { bundle.profile 5 with interests := ["Scalable IP Networks"] }]

/-- `projects.json`. -/
def projectData (bundle : Bundle) : List Project :=
  [{ bundle.project 0 with interests := ["Software Engineering", "Renewable Energy"] },
    { bundle.project 1 with interests := ["Educational Technology"] },
    { bundle.project 2 with interests := ["Distributed computing"] },
    { bundle.project 3 with interests := ["Unity", "Visualization"] }]

/-- `getInterests` of `Data.swift`. -/
def getInterests (bundle : Bundle) : List String :=
  collectInterests (profileData bundle) (projectData bundle)

/-- The global variable `interests`, which nothing assigns. -/
def interests (bundle : Bundle) : List String :=
  getInterests bundle

/-- The interests of the bundled records, in order and with repetitions. -/
theorem occurringInterests_eq (bundle : Bundle) :
    occurringInterests (profileData bundle) (projectData bundle) =
      ["Software Engineering", "Climate Change", "HPC", "Distributed Computing",
        "Software Engineering", "Renewable Energy", "AI", "Distributed Computing",
        "Visualization", "Scalable IP Networks", "Software Engineering", "Renewable Energy",
        "Educational Technology", "Distributed computing", "Unity", "Visualization"] :=
  rfl

/-- The global variable holds the same interests, whatever else the records say. -/
theorem interests_eq (bundle : Bundle) :
    interests bundle =
      ["Software Engineering", "Climate Change", "HPC", "Distributed Computing",
        "Renewable Energy", "AI", "Visualization", "Scalable IP Networks",
        "Educational Technology", "Distributed computing", "Unity"] := by
  rw [interests, getInterests, collectInterests_eq, occurringInterests_eq]
  decide

end Bowfolio.Data
