/-
**The error numbers** that the program returns with a minus sign.
-/

namespace Genimage

/-- `-EIO` -/
def eio : Int := -5

/-- `-E2BIG` -/
def e2big : Int := -7

/-- `-EINVAL` -/
def einval : Int := -22

/-- The model stops here where the behaviour of the source is not defined. -/
def undefinedBehaviour : Int := 1

end Genimage
