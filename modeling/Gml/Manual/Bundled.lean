import Gml.Manual.Basic

/-!
# The bundled manual

The built-in functions and variables that are known when a project brings no manual of
its own.
-/
namespace Gml.Manual

def parameter (label documentation : String) : Parameter :=
  { label, documentation := some documentation }

def optionalParameter (label documentation : String) : Parameter :=
  { label, documentation := some documentation, optional := true }

def bundledFunctions : List BuiltinFunction := [
  { name := "show_debug_message"
    parameters := [
      parameter "str" "The string to show."]
    variadic := true
    description := "Shows a message in the output console. Extra arguments are substituted into placeholders in the string." },
  { name := "show_message"
    parameters := [
      parameter "str" "The string to show."]
    description := "Shows a string in a pop-up message box. Execution pauses until the box is closed." },
  { name := "instance_create_layer"
    parameters := [
      parameter "x" "The x position to create the instance at.",
      parameter "y" "The y position to create the instance at.",
      parameter "layer_id_or_name" "The layer to assign the instance to.",
      parameter "obj" "The object index to create an instance of.",
      optionalParameter "var_struct" "A struct whose variables are applied before the Create event."]
    description := "Creates a new instance of an object on the given layer. The Create event of the instance runs before the function returns."
    returns := some "Id.Instance" },
  { name := "instance_create_depth"
    parameters := [
      parameter "x" "The x position to create the instance at.",
      parameter "y" "The y position to create the instance at.",
      parameter "depth" "The depth to create the instance at.",
      parameter "obj" "The object index to create an instance of.",
      optionalParameter "var_struct" "A struct whose variables are applied before the Create event."]
    description := "Creates a new instance of an object at the given depth."
    returns := some "Id.Instance" },
  { name := "instance_destroy"
    parameters := [
      optionalParameter "id" "The instance or object to destroy.",
      optionalParameter "execute_event_flag" "Whether to run the Destroy event."]
    description := "Destroys an instance. Without arguments the calling instance is destroyed." },
  { name := "instance_exists"
    parameters := [
      parameter "obj" "The object or instance to check for."]
    description := "Checks whether any instance of an object, or a specific instance, exists."
    returns := some "Bool" },
  { name := "instance_number"
    parameters := [
      parameter "obj" "The object to count."]
    description := "Returns the number of active instances of an object."
    returns := some "Real" },
  { name := "point_distance"
    parameters := [
      { label := "x1" },
      { label := "y1" },
      { label := "x2" },
      { label := "y2" }]
    description := "Returns the distance between two points."
    returns := some "Real" },
  { name := "point_direction"
    parameters := [
      { label := "x1" },
      { label := "y1" },
      { label := "x2" },
      { label := "y2" }]
    description := "Returns the direction from the first point to the second, in degrees."
    returns := some "Real" },
  { name := "lengthdir_x"
    parameters := [
      { label := "len" },
      { label := "dir" }]
    description := "Returns the horizontal component of a vector. Useful for movement along an angle."
    returns := some "Real" },
  { name := "lengthdir_y"
    parameters := [
      { label := "len" },
      { label := "dir" }]
    description := "Returns the vertical component of a vector. Useful for movement along an angle."
    returns := some "Real" },
  { name := "irandom"
    parameters := [
      parameter "n" "The upper limit."]
    description := "Returns a random integer between 0 and n inclusive."
    returns := some "Real" },
  { name := "irandom_range"
    parameters := [
      { label := "n1" },
      { label := "n2" }]
    description := "Returns a random integer between n1 and n2 inclusive."
    returns := some "Real" },
  { name := "random"
    parameters := [
      { label := "n" }]
    description := "Returns a random real number between 0 and n."
    returns := some "Real" },
  { name := "choose"
    parameters := []
    variadic := true
    description := "Returns one of the given arguments at random."
    returns := some "Any" },
  { name := "clamp"
    parameters := [
      { label := "val" },
      { label := "min" },
      { label := "max" }]
    description := "Constrains a value between a minimum and a maximum."
    returns := some "Real" },
  { name := "abs"
    parameters := [
      { label := "val" }]
    description := "Returns the absolute value of a number."
    returns := some "Real" },
  { name := "floor"
    parameters := [
      { label := "n" }]
    description := "Rounds a number down."
    returns := some "Real" },
  { name := "round"
    parameters := [
      { label := "n" }]
    description := "Rounds a number to the nearest integer."
    returns := some "Real" },
  { name := "min"
    parameters := []
    variadic := true
    description := "Returns the smallest of the arguments."
    returns := some "Real" },
  { name := "max"
    parameters := []
    variadic := true
    description := "Returns the largest of the arguments."
    returns := some "Real" },
  { name := "string"
    parameters := [
      { label := "val" }]
    variadic := true
    description := "Converts a value to a string. Extra arguments fill placeholders in a format string."
    returns := some "String" },
  { name := "string_length"
    parameters := [
      { label := "str" }]
    description := "Returns the number of characters in a string."
    returns := some "Real" },
  { name := "real"
    parameters := [
      { label := "str" }]
    description := "Converts a string to a real number."
    returns := some "Real" },
  { name := "array_length"
    parameters := [
      { label := "variable" }]
    description := "Returns the number of entries in an array."
    returns := some "Real" },
  { name := "array_push"
    parameters := [
      { label := "array" },
      { label := "value" }]
    variadic := true
    description := "Adds one or more values to the end of an array." },
  { name := "ds_list_create"
    parameters := []
    description := "Creates a new list data structure."
    returns := some "Id.DsList" },
  { name := "ds_list_add"
    parameters := [
      { label := "id" },
      { label := "value" }]
    variadic := true
    description := "Adds one or more values to a list." },
  { name := "ds_map_create"
    parameters := []
    description := "Creates a new map data structure."
    returns := some "Id.DsMap" },
  { name := "keyboard_check"
    parameters := [
      parameter "key" "The key code to check."]
    description := "Returns true while the given key is held down."
    returns := some "Bool" },
  { name := "keyboard_check_pressed"
    parameters := [
      parameter "key" "The key code to check."]
    description := "Returns true in the step the given key is first pressed."
    returns := some "Bool" },
  { name := "draw_sprite"
    parameters := [
      parameter "sprite" "The sprite index.",
      parameter "subimg" "The frame of the sprite to draw.",
      { label := "x" },
      { label := "y" }]
    description := "Draws a sprite at the given position. The sprite is drawn with its origin at that position." },
  { name := "draw_self"
    parameters := []
    description := "Draws the instance's sprite with its current transform." },
  { name := "draw_text"
    parameters := [
      { label := "x" },
      { label := "y" },
      { label := "string" }]
    description := "Draws a string at the given position in the current font." },
  { name := "draw_set_colour"
    parameters := [
      { label := "col" }]
    description := "Sets the colour used for subsequent drawing." },
  { name := "room_goto"
    parameters := [
      { label := "room" }]
    description := "Moves to another room at the end of the current step." }]

def bundledVariables : List BuiltinVariable := [
  { name := "room_speed"
    description := "The target frame rate of the current room. Read only in recent versions." },
  { name := "room_width"
    description := "The width of the current room in pixels." },
  { name := "room_height"
    description := "The height of the current room in pixels." },
  { name := "x"
    description := "The horizontal position of the instance in the room." },
  { name := "y"
    description := "The vertical position of the instance in the room." },
  { name := "speed"
    description := "The speed of the instance in pixels per step." },
  { name := "direction"
    description := "The direction of movement of the instance in degrees." },
  { name := "sprite_index"
    description := "The sprite currently assigned to the instance." },
  { name := "image_index"
    description := "The current frame of the instance's sprite." },
  { name := "image_speed"
    description := "The animation speed of the instance's sprite." },
  { name := "depth"
    description := "The depth of the instance. Lower values are drawn on top." },
  { name := "visible"
    description := "Whether the instance is drawn." },
  { name := "fps"
    description := "The number of frames per second the game is actually running at." }]

def bundled : Manual := ⟨bundledFunctions, bundledVariables⟩

end Gml.Manual
